import Folio.Analysis.Survey
import Folio.Proofs.Analysis.Decision
import Folio.Proofs.Template.Characters
import Folio.Proofs.Template.Frame
import Folio.Proofs.Template.Moment

/-! What the analysis reports, against what rendering misses. Wherever rendering comes to an output whose
variable is missing, the analysis has walked the same output under the same names and reports its path. -/
namespace Folio

open Template
open Node (AllBasic partsOfAll partsOfArms partsOfOption)

/-! ### Chains and conditions -/

namespace Expr

theorem undotted_of_isChain {e : Expr} (h : e.isChain) : e.Undotted := by
  fun_induction isChain e with
  | case1 name =>
    intro n m
    rw [inspected, List.mem_singleton] at m
    exact m ▸ dot_notMem_of_isIdentifier h
  | case2 base key ih =>
    intro n m
    rw [inspected, inspected.eq_def (.literal _), List.append_nil] at m
    exact ih (Bool.and_eq_true_iff.1 h).1 n m
  | case3 => cases h

theorem isPlain_of_isChain {e : Expr} (h : e.isChain) (use : Use) : e.isPlain use := by
  fun_induction isChain e generalizing use with
  | case1 name => cases use <;> rfl
  | case2 base key ih =>
    have parts := Bool.and_eq_true_iff.1 h
    have undotted : (Expr.literal (.string key)).isDotted = false := by
      simpa [isDotted] using dot_notMem_of_isIdentifier parts.2
    cases use <;> simp [isPlain, ih parts.1, undotted]
  | case3 => cases h

theorem undotted_of_isCondition : ∀ {e : Expr}, e.isCondition → e.Undotted
  | .and left right, h | .or left right, h => by
    have parts := Bool.and_eq_true_iff.1 h
    intro name m
    rcases List.mem_append.1 m with m | m
    · exact undotted_of_isCondition parts.1 name m
    · exact undotted_of_isCondition parts.2 name m
  | .not inner, h => fun name m => undotted_of_isCondition (e := inner) h name m
  | .isDefined target, h => fun name m => undotted_of_isChain (e := target) h name m
  | .var _, h | .lookup _ _, h => undotted_of_isChain h
  | .literal _, _ | .filter .., _ | .compare .., _ | .binary .., _ | .neg _, _ | .call .., _ | .test .., _
  | .list _, _ | .dict _, _ | .inlineIf .., _ => fun _ m => absurd m List.not_mem_nil

theorem isPlain_of_isCondition : ∀ {e : Expr}, e.isCondition → e.isPlain .truth
  | .and left right, h | .or left right, h => by
    have parts := Bool.and_eq_true_iff.1 h
    simp [isPlain, isPlain_of_isCondition parts.1, isPlain_of_isCondition parts.2]
  | .not inner, h => isPlain_of_isCondition (e := inner) h
  | .isDefined target, h => isPlain_of_isChain (e := target) h .value
  | .var _, h | .lookup _ _, h => isPlain_of_isChain h .truth
  | .literal _, _ | .filter .., _ | .compare .., _ | .binary .., _ | .neg _, _ | .call .., _ | .test .., _
  | .list _, _ | .dict _, _ | .inlineIf .., _ => rfl

variable {ns : Namespace} {locals : List String} {context : Context}
variable {setting : Setting} {jumps : Jumps} {calls : Nat}

theorem knownText?_string {s : String} (filled : s.isEmpty = false) :
    (Expr.literal (.string s)).knownText? ns locals = some s := by
  rw [knownText?, known?]
  simp [filled]

/-- The truth that is known of a condition does not rule its value out. -/
theorem admits_of_isCondition {e : Expr} {value : Value} (h : e.isCondition)
    (within : context.Within ns locals) (he : eval setting jumps calls context e = .ok value) :
    (e.truth ns locals).Admits value.isTruthy :=
  (fits_of_eval within e (undotted_of_isCondition h) he).truth (isPlain_of_isCondition h)

theorem truth_congr {e : Expr} {other : Namespace} (h : e.isCondition) (agree : Agree ns other locals e) :
    e.truth ns locals = e.truth other locals := by
  rw [truth, truth, known?_congr (undotted_of_isCondition h) agree]

/-- A chain evaluates to nothing only if its path leads nowhere. -/
theorem hasValueAt_of_eval_undefined {e : Expr} {path : String} (chain : e.isChain)
    (hp : e.path? = some path) (free : ¬ e.isLocal locals) (within : context.Within ns locals)
    (he : eval setting jumps calls context e = .ok .undefined) : ns.hasValueAt path = false := by
  have value := he.symm.trans
    (eval_of_path? hp (undotted_of_isChain chain) (isPlain_of_isChain chain .value) free within)
  rw [Namespace.hasValueAt_eq, ← Except.ok.inj value]
  rfl

/-- An expression whose path leads nowhere is reported. -/
theorem mem_missing {e : Expr} {path : String} (hp : e.path? = some path) (free : ¬ e.isLocal locals)
    (nowhere : ns.hasValueAt path = false) : path ∈ e.missing ns locals := by
  have here : missingPath ns locals e = [path] := by
    simp [missingPath, hp, nowhere, free]
  cases e with
  | var name => simp [missing, here]
  | lookup base key => simp [missing, here]
  | _ => cases hp

end Expr

/-! ### Names that are bound -/

namespace Node

variable (ns : Namespace) (locals : List String)

mutual

/-- No name is bound behind a basic node. -/
theorem walk_locals : ∀ {node : Node}, AllBasic node.parts → (node.walk ns locals).2 = locals
  | .text _, _ | .output _, _ | .loop .., _ | .filterBlock .., _ => rfl
  | .branch arms otherwise, basic => by
    simp only [parts, allBasic_cons, allBasic_append] at basic
    exact walkArms_locals basic.2.1 (walkOption_locals basic.2.2)
  | .inclusion name ignoreMissing withContext, _ => by
    rw [walk]
    split <;> rfl
  | .block name body, basic => by
    simp only [parts, allBasic_cons] at basic
    exact walkAll_locals basic.2
  | .assign .., basic | .extend _, basic | .define .., basic | .callBlock .., basic | .importAs .., basic
  | .importFrom .., basic => by cases basic _ (self_mem_parts _)

theorem walkAll_locals : ∀ {nodes : List Node}, AllBasic (partsOfAll nodes) →
    (walkAll ns locals nodes).2 = locals
  | [], _ => rfl
  | node :: nodes, basic => by
    rw [partsOfAll, allBasic_append] at basic
    rw [walkAll]
    simp only [walk_locals basic.1]
    exact walkAll_locals basic.2

theorem walkArms_locals : ∀ {arms : List (Expr × List Node)}
    {otherwise : List String → Findings × List String}, AllBasic (partsOfArms arms) →
    (otherwise locals).2 = locals → (walkArms ns locals arms otherwise).2 = locals
  | [], _, _, ho => ho
  | (condition, body) :: arms, otherwise, basic, ho => by
    rw [partsOfArms, allBasic_append] at basic
    rw [walkArms]
    split
    · exact walkAll_locals basic.1
    · exact walkArms_locals basic.2 ho
    · simp only [walkAll_locals basic.1]
      exact walkArms_locals basic.2 ho

theorem walkOption_locals : ∀ {body : Option (List Node)}, AllBasic (partsOfOption body) →
    (walkOption ns locals body).2 = locals
  | none, _ => rfl
  | some _, basic => by
    rw [partsOfOption] at basic
    exact walkAll_locals basic

end

end Node

/-! ### Inclusions that are walked -/

/-- The names of the inclusions that were found. -/
def Findings.names (findings : Findings) : List String :=
  findings.inclusions.map (·.name)

theorem Findings.names_append (a b : Findings) : (a ++ b).names = a.names ++ b.names :=
  List.map_append

namespace Node

variable (ns : Namespace)

mutual

/-- The inclusions that a walk finds stand in the template, each once. -/
theorem walk_names_sublist : ∀ {node : Node} (locals : List String), AllBasic node.parts →
    (node.walk ns locals).1.names.Sublist (node.parts.filterMap includedName?)
  | .text _, _, _ | .output _, _, _ => List.nil_sublist _
  | .branch arms otherwise, locals, basic => by
    simp only [parts, allBasic_cons, allBasic_append] at basic
    rw [parts, List.filterMap_cons_none rfl, List.filterMap_append]
    exact walkArms_names_sublist locals basic.2.1 fun locals => walkOption_names_sublist locals basic.2.2
  | .inclusion name ignoreMissing withContext, locals, basic => by
    obtain ⟨s, rfl, filled⟩ := exists_name_of_isBasic (basic _ (self_mem_parts _))
    simp only [walk, Expr.knownText?_string filled]
    exact List.Sublist.refl _
  | .block name body, locals, basic => by
    simp only [parts, allBasic_cons] at basic
    exact walkAll_names_sublist locals basic.2
  | .loop targets items body otherwise, locals, basic => by
    simp only [parts, allBasic_cons, allBasic_append] at basic
    rw [parts, List.filterMap_cons_none rfl, List.filterMap_append, walk, Findings.names_append]
    exact (walkAll_names_sublist _ basic.2.1).append (walkOption_names_sublist _ basic.2.2)
  | .filterBlock name args body, locals, basic => by
    simp only [parts, allBasic_cons] at basic
    rw [walk, Findings.names_append]
    exact walkAll_names_sublist locals basic.2
  | .assign .., _, basic | .extend _, _, basic | .define .., _, basic | .callBlock .., _, basic
  | .importAs .., _, basic | .importFrom .., _, basic => by cases basic _ (self_mem_parts _)

theorem walkAll_names_sublist : ∀ {nodes : List Node} (locals : List String), AllBasic (partsOfAll nodes) →
    (walkAll ns locals nodes).1.names.Sublist (includedNames nodes)
  | [], _, _ => List.nil_sublist _
  | node :: nodes, locals, basic => by
    rw [partsOfAll, allBasic_append] at basic
    rw [includedNames, partsOfAll, List.filterMap_append, walkAll, Findings.names_append]
    exact (walk_names_sublist locals basic.1).append (walkAll_names_sublist _ basic.2)

theorem walkArms_names_sublist : ∀ {arms : List (Expr × List Node)}
    {otherwise : List String → Findings × List String} {names : List String} (locals : List String),
    AllBasic (partsOfArms arms) → (∀ locals, (otherwise locals).1.names.Sublist names) →
    (walkArms ns locals arms otherwise).1.names.Sublist
      ((partsOfArms arms).filterMap includedName? ++ names)
  | [], _, _, locals, _, ho => ho locals
  | (condition, body) :: arms, otherwise, names, locals, basic, ho => by
    rw [partsOfArms, allBasic_append] at basic
    have here := walkAll_names_sublist locals basic.1
    have after (locals : List String) := walkArms_names_sublist locals basic.2 ho
    rw [partsOfArms, List.filterMap_append, List.append_assoc, walkArms]
    split
    · exact here.trans (List.sublist_append_left ..)
    · exact (after locals).trans (List.sublist_append_right ..)
    · rw [Findings.names_append]
      exact here.append (after _)

theorem walkOption_names_sublist : ∀ {body : Option (List Node)} (locals : List String),
    AllBasic (partsOfOption body) →
    (walkOption ns locals body).1.names.Sublist ((partsOfOption body).filterMap includedName?)
  | none, _, _ => List.nil_sublist _
  | some _, locals, basic => by
    rw [partsOfOption] at basic
    exact walkAll_names_sublist locals basic

end

end Node

/-! ### Contexts of loops and inclusions -/

namespace Template

theorem mem_targets_of_bindTargets {targets : List String} {item : Value} {scope : Scope} {name : String}
    (h : bindTargets targets item = .ok scope) (found : (Fields.find? name scope).isSome) :
    name ∈ targets := by
  rw [Fields.isSome_find?_iff] at found
  rw [bindTargets.eq_def] at h
  split at h
  · cases h
    exact found
  · split at h
    · cases h
      rcases Fields.mem_keys_putAll.1 found with m | m
      · cases m
      · obtain ⟨pair, hp, rfl⟩ := List.mem_map.1 m
        exact (List.of_mem_zip hp).1
    · cases h
  · cases h

namespace Context

variable {context : Context} {ns : Namespace} {locals : List String}

theorem Within.push_empty (h : context.Within ns locals) : (context.push []).Within ns locals :=
  ⟨h.globals, List.forall_mem_cons.2 ⟨fun _ found => absurd found (by simp), h.bound⟩⟩

/-- The body of a loop sees the targets and the progress of the loop. -/
theorem Within.push_item (h : context.Within ns locals) {targets : List String} {item progress : Value}
    {scope : Scope} (hs : bindTargets targets item = .ok scope) :
    (context.push (Fields.put loopName progress scope)).Within ns (locals ++ targets ++ [loopName]) := by
  refine ⟨h.globals, List.forall_mem_cons.2 ⟨fun name found => ?_, fun scope m name found => ?_⟩⟩
  · by_cases hl : name = loopName
    · simp [hl]
    · rw [Fields.find?_put_ne hl] at found
      simp [mem_targets_of_bindTargets hs found]
  · simp [h.bound scope m name found]

end Context

end Template

/-! ### Reports -/

/-- What an analysis comes to: the namespace that it looks variables up in, the paths that it reports and the
inclusions that it follows. Behind an inclusion without context (`true`) and elsewhere (`false`), rendering may
see another namespace, and the analysis need not answer for what it lacks. -/
structure Report where
  ns : Namespace
  paths : List String
  Follows : Inclusion → Prop
  sees : Bool → Namespace
  AnswersFor : Bool → Prop

/-- The paths are reported and the inclusions followed. -/
structure Findings.Reported (findings : Findings) (report : Report) : Prop where
  paths : ∀ path ∈ findings.missing, path ∈ report.paths
  inclusions : ∀ inclusion ∈ findings.inclusions, report.Follows inclusion

theorem Findings.reported_append {a b : Findings} {report : Report} :
    (a ++ b).Reported report ↔ a.Reported report ∧ b.Reported report := by
  have paths : (a ++ b).missing = a.missing ++ b.missing := rfl
  have inclusions : (a ++ b).inclusions = a.inclusions ++ b.inclusions := rfl
  constructor
  · rintro ⟨hp, hi⟩
    rw [paths, List.forall_mem_append] at hp
    rw [inclusions, List.forall_mem_append] at hi
    exact ⟨⟨hp.1, hi.1⟩, ⟨hp.2, hi.2⟩⟩
  · rintro ⟨ha, hb⟩
    refine ⟨?_, ?_⟩
    · rw [paths]
      exact List.forall_mem_append.2 ⟨ha.paths, hb.paths⟩
    · rw [inclusions]
      exact List.forall_mem_append.2 ⟨ha.inclusions, hb.inclusions⟩

/-- The templates of the inclusions that are followed are reported too, under the names that an inclusion
carries, and rendering sees nothing behind an inclusion without context. -/
structure Report.Closed (report : Report) (setting : Setting) : Prop where
  basic : setting.IsBasic
  follows : ∀ ⦃inclusion template⦄, report.Follows inclusion →
    setting.template? inclusion.name = .ok (some template) →
    (Node.walkAll report.ns inclusion.locals template.nodes).1.Reported report
  hidden : ∀ ⦃name template⦄, setting.template? name = .ok (some template) → report.sees true = .empty
  answers : report.AnswersFor true → report.AnswersFor false

/-- What the analysis knows of the conditions in the moment, it would know of them in the namespace that
rendering sees. -/
def Report.Decides (report : Report) (moment : Moment) : Prop :=
  report.AnswersFor moment.view.isolated →
    ∀ condition ∈ moment.node.conditions, condition.isCondition →
      condition.truth report.ns moment.view.bound =
        condition.truth (report.sees moment.view.isolated) moment.view.bound

/-- The path is reported, or the analysis finds it where rendering does not look. -/
def Report.Answers (report : Report) (view : View) (path : String) : Prop :=
  report.AnswersFor view.isolated →
    path ∈ report.paths ∨ report.sees view.isolated ≠ report.ns ∧ report.ns.hasValueAt path

/-- Of a condition that holds the own branch is walked, of one that does not the branches after it. -/
theorem Findings.Reported.of_walkArms {report : Report} {ns : Namespace} {locals : List String}
    {condition : Expr} {body : List Node} {arms : List (Expr × List Node)}
    {otherwise : List String → Findings × List String} {b : Bool} (basic : AllBasic (partsOfAll body))
    (admits : (condition.truth ns locals).Admits b)
    (h : (Node.walkArms ns locals ((condition, body) :: arms) otherwise).1.Reported report) :
    if b then (Node.walkAll ns locals body).1.Reported report
    else (Node.walkArms ns locals arms otherwise).1.Reported report := by
  rw [Node.walkArms] at h
  split at h
  · rename_i known
    rw [known] at admits
    rw [admits.eq_true]
    exact h
  · rename_i known
    rw [known] at admits
    rw [admits.eq_false]
    exact h
  · simp only [Node.walkAll_locals ns locals basic] at h
    have both := Findings.reported_append.1 h
    cases b
    · exact both.2
    · exact both.1

namespace Template

/-- The path of an output that rendering evaluates to nothing, if it is a chain of names whose variable no
loop in sight binds. -/
def Moment.lacking? (setting : Setting) (moment : Moment) : Option String :=
  match moment.node with
  | .output e =>
    if e.isChain && !e.isLocal moment.view.bound then
      match eval setting moment.jumps moment.place.calls moment.context e with
      | .ok .undefined => e.path?
      | _ => none
    else none
  | _ => none

theorem eval_of_lacking? {setting : Setting} {jumps : Jumps} {place : Place} {view : View} {e : Expr}
    {context : Context} {path : String}
    (h : Moment.lacking? setting ⟨jumps, place, view, .output e, context⟩ = some path) :
    e.isChain ∧ ¬ e.isLocal view.bound ∧ e.path? = some path ∧
      eval setting jumps place.calls context e = .ok .undefined := by
  simp only [Moment.lacking?] at h
  split at h
  · rename_i chain
    rw [Bool.and_eq_true, Bool.not_eq_true'] at chain
    split at h
    · rename_i value
      exact ⟨chain.1, by simp [chain.2], h, value⟩
    · cases h
  · cases h

/-- The report answers what is lacking in the moments, if it decides the conditions in all of them. -/
def Covered (setting : Setting) (report : Report) (moments : List Moment) : Prop :=
  (∀ moment ∈ moments, report.Decides moment) →
    ∀ moment ∈ moments, ∀ path, moment.lacking? setting = some path → report.Answers moment.view path

section Covered

variable {setting : Setting} {report : Report}

theorem covered_nil : Covered setting report [] :=
  fun _ _ m => absurd m List.not_mem_nil

theorem covered_append {before after : List Moment} (hb : Covered setting report before)
    (ha : Covered setting report after) : Covered setting report (before ++ after) := by
  intro decides
  rw [List.forall_mem_append] at decides
  exact List.forall_mem_append.2 ⟨hb decides.1, ha decides.2⟩

theorem covered_cons {moment : Moment} {moments : List Moment} (silent : moment.lacking? setting = none)
    (hm : report.Decides moment → Covered setting report moments) :
    Covered setting report (moment :: moments) := by
  intro decides
  rw [List.forall_mem_cons] at decides
  refine List.forall_mem_cons.2 ⟨fun path lacks => ?_, hm decides.1 decides.2⟩
  rw [silent] at lacks
  cases lacks

theorem covered_following {α : Type} {action : Rendering α} {next : α → Context → List Moment}
    {context : Context} (keeps : action.Keeps)
    (hn : ∀ value, (action context).1 = .ok value → Covered setting report (next value context)) :
    Covered setting report (following action next context) := by
  have kept := keeps context
  rw [following]
  split
  · rename_i value after h
    rw [h] at kept hn
    cases kept
    exact hn value rfl
  · exact covered_nil

end Covered

/-! ### Coverage -/

/-- Rendering stands where the context binds only what the loops in sight bind, and what the walk finds
under these names is reported. -/
structure Surveyed (report : Report) (view : View) (context : Context) (walk : List String → Findings) :
    Prop where
  within : context.Within (report.sees view.isolated) view.bound
  reported : report.AnswersFor view.isolated → (walk view.bound).Reported report

/-- The moments of bodies that stand elsewhere are covered, if the walk through the body is reported. -/
def CoversElsewhere (setting : Setting) (report : Report)
    (elsewhere : Place → View → List Node → Context → List Moment) : Prop :=
  ∀ ⦃place view nodes context⦄, place.overrides = [] → AllBasic (partsOfAll nodes) →
    Surveyed report view context (fun locals => (Node.walkAll report.ns locals nodes).1) →
    Covered setting report (elsewhere place view nodes context)

section Coverage

variable {setting : Setting} {jumps : Jumps} {report : Report}
variable {elsewhere : Place → View → List Node → Context → List Moment}

theorem covered_momentsOfEach {targets : List String} {body : Rendering String}
    {inside : Context → List Moment} {context : Context} (keeps : body.Keeps) (length : Nat)
    (items : List Value) (hi : ∀ item scope progress, bindTargets targets item = .ok scope →
      Covered setting report (inside (context.push (Fields.put loopName progress scope)))) :
    ∀ index, Covered setting report (momentsOfEach targets body inside length index items context) := by
  induction items with
  | nil => exact fun _ => covered_nil
  | cons item items ih =>
    intro index
    rw [momentsOfEach]
    split
    · exact covered_nil
    · rename_i scope hs
      exact covered_append (hi item scope _ hs) (covered_following keeps fun _ _ => ih (index + 1))

theorem covered_momentsOfDocument {template : Template} {depth calls : Nat} {view : View} {context : Context}
    (he : CoversElsewhere setting report elsewhere) (basic : AllBasic (partsOfAll template.nodes))
    (seen : Surveyed report view context (fun locals => (Node.walkAll report.ns locals template.nodes).1)) :
    Covered setting report (momentsOfDocument setting jumps elsewhere template depth calls view context) := by
  rw [momentsOfDocument, momentsOfLayers, parent?_eq_none basic]
  exact he rfl basic seen

theorem covered_momentsOfInclusion (closed : report.Closed setting)
    (he : CoversElsewhere setting report elsewhere) {place : Place} {view : View} {name : String}
    (ignoreMissing : Bool) {withContext : Bool} {context : Context}
    (seen : Surveyed report view context (fun locals =>
      ⟨[], [⟨name, ignoreMissing, if withContext then locals else []⟩]⟩)) :
    Covered setting report
      (momentsOfInclusion setting jumps elsewhere place view name withContext context) := by
  rw [momentsOfInclusion]
  split
  · rename_i included h
    split
    · exact covered_nil
    · have reported (answers : report.AnswersFor view.isolated) :=
        closed.follows ((seen.reported answers).inclusions _ (List.mem_singleton_self _)) h
      refine covered_momentsOfDocument he (closed.basic h) ?_
      cases withContext with
      | true => exact ⟨seen.within.push_empty, reported⟩
      | false =>
        have blind : report.sees true = .empty := closed.hidden h
        refine ⟨blind ▸ Context.within_ofNamespace .empty, fun answers => reported ?_⟩
        cases view.isolated with
        | true => exact answers
        | false => exact closed.answers answers
  · exact covered_nil

section Nodes

set_option linter.unusedSectionVars false

variable (closed : report.Closed setting) (keep : jumps.Keep)
variable (he : CoversElsewhere setting report elsewhere) {place : Place} (plain : place.overrides = [])
include closed keep he plain

mutual

theorem covered_momentsOf : ∀ {node : Node} {view : View} {context : Context}, AllBasic node.parts →
    Surveyed report view context (fun locals => (node.walk report.ns locals).1) →
    Covered setting report (momentsOf setting jumps elsewhere place view node context)
  | .text _, _, _, _, _ => covered_cons rfl fun _ => covered_nil
  | .output e, view, context, _, seen => by
    refine fun _ => List.forall_mem_cons.2 ⟨fun path lacks answers => ?_, fun _ m => absurd m List.not_mem_nil⟩
    obtain ⟨chain, free, hp, value⟩ := eval_of_lacking? lacks
    have nowhere := Expr.hasValueAt_of_eval_undefined chain hp free seen.within value
    cases supplied : report.ns.hasValueAt path with
    | false => exact .inl ((seen.reported answers).paths path (Expr.mem_missing hp free supplied))
    | true =>
      refine .inr ⟨fun same => ?_, rfl⟩
      rw [same, supplied] at nowhere
      cases nowhere
  | .branch arms otherwise, view, context, basic, seen => by
    simp only [Node.parts, Node.allBasic_cons, Node.allBasic_append] at basic
    have conditions : ∀ arm ∈ arms, arm.1.isCondition := by simpa [Node.isBasic, Node.conditions] using basic.1
    refine covered_cons rfl fun decides => ?_
    refine covered_momentsOfArms basic.2.1 conditions ?_ (covered_momentsOfOption basic.2.2) seen
    exact fun answers arm m => decides answers arm.1 (List.mem_map_of_mem m) (conditions arm m)
  | .inclusion name ignoreMissing withContext, view, context, basic, seen => by
    obtain ⟨s, rfl, filled⟩ := Node.exists_name_of_isBasic (basic _ (Node.self_mem_parts _))
    refine covered_cons rfl fun _ => covered_following (keeps_evaluate place _) ?_
    intro value hv
    cases hv
    have reported := seen.reported
    simp only [Node.walk, Expr.knownText?_string filled] at reported
    exact covered_momentsOfInclusion closed he ignoreMissing ⟨seen.within, reported⟩
  | .block name body, view, context, basic, seen => by
    simp only [Node.parts, Node.allBasic_cons] at basic
    refine covered_cons rfl fun _ => ?_
    rw [plain]
    exact covered_momentsOfAll basic.2 seen
  | .loop targets items body otherwise, view, context, basic, seen => by
    simp only [Node.parts, Node.allBasic_cons, Node.allBasic_append] at basic
    have both (answers : report.AnswersFor view.isolated) := Findings.reported_append.1 (seen.reported answers)
    refine covered_cons rfl fun _ => covered_following (keeps_evaluate place items) fun value _ => ?_
    split
    · exact covered_nil
    · split
      · exact covered_momentsOfOption basic.2.2 ⟨seen.within, fun answers => (both answers).2⟩
      · refine covered_momentsOfEach (keeps_renderNodes closed.basic keep plain basic.2.1) _ _ ?_ 0
        intro item scope progress hs
        exact covered_momentsOfAll basic.2.1 ⟨seen.within.push_item hs, fun answers => (both answers).1⟩
  | .filterBlock name args body, view, context, basic, seen => by
    simp only [Node.parts, Node.allBasic_cons] at basic
    refine covered_cons rfl fun _ => covered_momentsOfAll basic.2 ⟨seen.within, fun answers => ?_⟩
    exact (Findings.reported_append.1 (seen.reported answers)).2
  | .assign .., _, _, basic, _ | .extend _, _, _, basic, _ | .define .., _, _, basic, _
  | .callBlock .., _, _, basic, _ | .importAs .., _, _, basic, _ | .importFrom .., _, _, basic, _ => by
    cases basic _ (Node.self_mem_parts _)

theorem covered_momentsOfAll : ∀ {nodes : List Node} {view : View} {context : Context},
    AllBasic (partsOfAll nodes) →
    Surveyed report view context (fun locals => (Node.walkAll report.ns locals nodes).1) →
    Covered setting report (momentsOfAll setting jumps elsewhere place view nodes context)
  | [], _, _, _, _ => covered_nil
  | node :: nodes, view, context, basic, seen => by
    rw [partsOfAll, Node.allBasic_append] at basic
    have both (answers : report.AnswersFor view.isolated) := Findings.reported_append.1 (seen.reported answers)
    simp only [Node.walk_locals report.ns view.bound basic.1] at both
    have here := covered_momentsOf basic.1 ⟨seen.within, fun answers => (both answers).1⟩
    have after := covered_momentsOfAll basic.2 ⟨seen.within, fun answers => (both answers).2⟩
    exact covered_append here
      (covered_following (keeps_renderNode closed.basic keep plain basic.1) fun _ _ => after)

theorem covered_momentsOfArms : ∀ {arms : List (Expr × List Node)}
    {otherwise : List String → Findings × List String} {rest : Context → List Moment} {view : View}
    {context : Context}, AllBasic (partsOfArms arms) → (∀ arm ∈ arms, arm.1.isCondition) →
    (report.AnswersFor view.isolated → ∀ arm ∈ arms, arm.1.truth report.ns view.bound =
      arm.1.truth (report.sees view.isolated) view.bound) →
    (Surveyed report view context (fun locals => (otherwise locals).1) →
      Covered setting report (rest context)) →
    Surveyed report view context (fun locals => (Node.walkArms report.ns locals arms otherwise).1) →
    Covered setting report (momentsOfArms setting jumps elsewhere place view arms rest context)
  | [], _, _, _, _, _, _, _, hr, seen => hr seen
  | (condition, body) :: arms, otherwise, rest, view, context, basic, conditions, decides, hr, seen => by
    rw [partsOfArms, Node.allBasic_append] at basic
    rw [List.forall_mem_cons] at conditions
    refine covered_following (keeps_evaluate place condition) fun value hv => ?_
    have chosen (answers : report.AnswersFor view.isolated) := by
      have admits := Expr.admits_of_isCondition conditions.1 seen.within hv
      rw [← decides answers _ List.mem_cons_self] at admits
      exact Findings.Reported.of_walkArms basic.1 admits (seen.reported answers)
    split
    · rename_i holds
      simp only [holds, if_true] at chosen
      exact covered_momentsOfAll basic.1 ⟨seen.within, chosen⟩
    · rename_i fails
      simp only [fails] at chosen
      have after (answers : report.AnswersFor view.isolated) := (List.forall_mem_cons.1 (decides answers)).2
      exact covered_momentsOfArms basic.2 conditions.2 after hr ⟨seen.within, chosen⟩

theorem covered_momentsOfOption : ∀ {body : Option (List Node)} {view : View} {context : Context},
    AllBasic (partsOfOption body) →
    Surveyed report view context (fun locals => (Node.walkOption report.ns locals body).1) →
    Covered setting report (momentsOfOption setting jumps elsewhere place view body context)
  | none, _, _, _, _ => covered_nil
  | some _, _, _, basic, seen => by
    rw [partsOfOption] at basic
    exact covered_momentsOfAll basic seen

end

end Nodes

/-- However deep inclusions lead, what is missing is reported. -/
theorem coversElsewhere_within (closed : report.Closed setting) (n : Nat) :
    CoversElsewhere setting report (momentsWithin setting n) := by
  induction n with
  | zero => exact fun _ _ _ _ _ _ _ => covered_nil
  | succ n ih =>
    exact fun _ _ _ _ plain basic seen =>
      covered_momentsOfAll closed (keep_within closed.basic n) ih plain basic seen

/-- What rendering a template misses is reported, if the walk through the template is. -/
theorem covered_moments {template : Template} (closed : report.Closed setting)
    (visible : report.sees false = report.ns) (basic : AllBasic (partsOfAll template.nodes))
    (reported : (Node.walkAll report.ns [] template.nodes).1.Reported report) :
    Covered setting report (moments setting template report.ns) := by
  have within : (Context.ofNamespace report.ns).Within (report.sees false) [] := by
    rw [visible]
    exact Context.within_ofNamespace report.ns
  exact covered_momentsOfDocument (coversElsewhere_within closed maxJumps) basic ⟨within, fun _ => reported⟩

end Coverage

/-! ### A template by itself -/

theorem mem_ascending {path : String} {paths : List String} : path ∈ ascending paths ↔ path ∈ paths := by
  rw [ascending, Fields.ofList, Fields.mem_keys_putAll]
  simp [Fields.keys]

/-- A report that follows nothing is closed where there is nothing to follow. -/
theorem closed_alone (ns : Namespace) (paths : List String) (locale : Locale) :
    Report.Closed ⟨ns, paths, fun _ => False, fun _ => ns, fun _ => True⟩ (.alone locale) where
  basic := fun _ _ h => by cases h
  follows := fun _ _ followed => followed.elim
  hidden := fun _ _ h => by cases h
  answers := id

theorem inclusions_eq_nil {nodes : List Node} (basic : AllBasic (partsOfAll nodes))
    (single : Node.includedNames nodes = []) (ns : Namespace) : (Node.walkAll ns [] nodes).1.inclusions = [] := by
  have names := Node.walkAll_names_sublist ns [] basic
  rwa [single, List.sublist_nil, Findings.names, List.map_eq_nil_iff] at names

/-- Nothing that rendering lacks in a template without inclusions goes unreported, whether or not rendering
comes to its end. -/
theorem lacking_mem_missing (template : Template) (basic : AllBasic (partsOfAll template.nodes))
    (single : Node.includedNames template.nodes = []) (ns : Namespace) (loader : Loader) (locale : Locale) :
    ∃ missing, (Survey.run template.source ns loader).outcome = .ok missing ∧
      ∀ moment ∈ template.moments (.alone locale) ns, ∀ path,
        moment.lacking? (.alone locale) = some path → path ∈ missing := by
  have inclusions := inclusions_eq_nil basic single ns
  refine ⟨ascending (Node.walkAll ns [] template.nodes).1.missing, ?_, fun moment m path lacks => ?_⟩
  · simp only [Survey.run, template.parsed, inclusions, Survey.follow_nil]
  · have closed := closed_alone ns (Node.walkAll ns [] template.nodes).1.missing locale
    have covered := covered_moments closed rfl basic ⟨fun _ hp => hp, by simp [inclusions]⟩
    have answers := covered (fun _ _ _ _ _ _ => rfl) moment m path lacks trivial
    exact mem_ascending.2 (answers.resolve_right fun blind => blind.1 rfl)

/-- In a loop whose variable has no part `k`, only the part of a variable that is not there is lacking. -/
theorem lacking_mem_missing_in_loop :
    let source := "\x7b% for x in xs %\x7d\x7b% if x == 1 %\x7d\x7b\x7b x.k \x7d\x7d\x7b\x7b b.c \x7d\x7d" ++
      "\x7b% endif %\x7d\x7b% endfor %\x7d"
    let ns : Namespace := .ofList [("xs", .seq [.int 1])]
    ∃ template, Template.read "page" source = .ok template ∧ AllBasic (partsOfAll template.nodes) ∧
      Node.includedNames template.nodes = [] ∧
      (template.moments (.alone .english) ns).filterMap (Moment.lacking? (.alone .english)) = ["b.c"] ∧
      ∃ missing, (Survey.run template.source ns (.ofList [])).outcome = .ok missing ∧ "b.c" ∈ missing := by
  intro source ns
  have shown : (Template.read "page" source).toOption.map (fun template =>
      (decide (AllBasic (partsOfAll template.nodes)), Node.includedNames template.nodes,
        (template.moments (.alone .english) ns).filterMap (Moment.lacking? (.alone .english)))) =
      some (true, [], ["b.c"]) := by
    rw [Template.read_eq_readChars (Text.append_eq_ofList rfl rfl)]
    decide +kernel
  cases read : Template.read "page" source with
  | error error => rw [read] at shown; cases shown
  | ok template =>
    rw [read] at shown
    simp only [Except.toOption, Option.map_some, Option.some.injEq, Prod.mk.injEq, decide_eq_true_eq] at shown
    obtain ⟨basic, single, lacking⟩ := shown
    obtain ⟨missing, outcome, reported⟩ := lacking_mem_missing template basic single ns (.ofList []) .english
    have lacks : "b.c" ∈ (template.moments (.alone .english) ns).filterMap
        (Moment.lacking? (.alone .english)) := by simp [lacking]
    obtain ⟨moment, m, path⟩ := List.mem_filterMap.1 lacks
    exact ⟨template, rfl, basic, single, lacking, missing, outcome, reported moment m _ path⟩

end Template

end Folio
