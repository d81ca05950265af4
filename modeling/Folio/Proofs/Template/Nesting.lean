import Folio.Proofs.Analysis.Inclusion
import Folio.Proofs.Template.Invocation
import Folio.Proofs.Template.Shown

/-! Inclusions and parents, which may lead back to where they come from, nest only so deep. -/
namespace Folio

open Template
open Node (partsOfAll)

/-! ### Templates without blocks and macros -/

namespace Node

/-- The node is no block, and no macro is defined or called with a body in it. -/
def isFlat : Node → Bool
  | .block .. | .define .. | .callBlock .. => false
  | _ => true

/-- All of the nodes are flat. -/
def AllFlat (nodes : List Node) : Prop :=
  ∀ node ∈ nodes, node.isFlat

instance (nodes : List Node) : Decidable (AllFlat nodes) :=
  inferInstanceAs (Decidable (∀ node ∈ nodes, node.isFlat))

theorem exports_eq_nil {nodes : List Node} (flat : AllFlat (partsOfAll nodes)) : exports nodes = [] := by
  rw [exports, List.filterMap_eq_nil_iff]
  intro node m
  have h := flat node (mem_partsOfAll.2 ⟨node, m, node.self_mem_parts⟩)
  cases node <;> first | rfl | cases h

end Node

open Node (AllFlat)

/-- The templates that can be reached are flat, and none of them is a matter of jumps. -/
structure Template.Setting.IsFlat (setting : Setting) : Prop where
  nodes : ∀ ⦃name template⦄, setting.template? name = .ok (some template) → AllFlat (partsOfAll template.nodes)
  settled : ∀ name, Settled (setting.template? name)

namespace Template

variable {setting : Setting} {jumps : Jumps} {elsewhere : Place → View → List Node → Context → List Moment}

/-- The action settles where no macro is known, makes none known, and comes only to moments that are not too deep. -/
abbrev RunsFlat {α : Type} : Rendering α → (Context → List Moment) → Prop :=
  Runs (· ≠ .unsettled) Context.Bare (fun moment => moment.place.depth ≤ maxNesting)

/-- Bodies that stand elsewhere run at any depth from `depth` on. -/
def FlatFrom (depth : Nat) (jumps : Jumps) (elsewhere : Place → View → List Node → Context → List Moment) : Prop :=
  ∀ place view nodes, depth ≤ place.depth → place.depth ≤ maxNesting → AllFlat (partsOfAll nodes) →
    RunsFlat (jumps.body place nodes) (elsewhere place view nodes)

theorem maintains_flat (setting : Setting) (jumps : Jumps) {place : Place} (shallow : place.depth ≤ maxNesting) :
    Maintains setting jumps place (fun node => node.isFlat) (· ≠ .unsettled) Context.Bare
      (fun moment => moment.place.depth ≤ maxNesting) where
  operation _ h := h
  value context bare e cause failed same := bare.settled_eval e (same ▸ failed)
  assign context bare name value := by
    rw [Context.assign]
    split
    · exact bare
    · exact bare
  push _ bare _ := bare
  pop _ bare := bare
  moment _ _ _ _ _ := shallow

section Flat

variable (flat : setting.IsFlat)
include flat

theorem runs_layOut (start : String) (view : View) (allowed : Nat) : ∀ {place : Place} {nodes : List Node},
    FlatFrom place.depth jumps elsewhere → place.depth + allowed ≤ maxNesting → AllFlat (partsOfAll nodes) →
    RunsFlat (layOut setting jumps start allowed place nodes)
      (momentsOfLayers setting jumps elsewhere view allowed place nodes) := by
  induction allowed with
  | zero =>
    intro place nodes hj deep fn
    rw [layOut.eq_def, funext (momentsOfLayers.eq_def _ _ _ _ _ _ _)]
    cases parent? nodes with
    | none => exact hj place view nodes (Nat.le_refl _) deep fn
    | some e =>
      refine ((maintains_flat setting jumps deep).evaluate e).next fun name => ?_
      refine .lift_bind (fun _ _ => .throw (by simp)) fun cause failed => ⟨?_, fun _ => rfl⟩
      exact fun same => settled_require flat.settled name.text (same ▸ failed)
  | succ allowed ih =>
    intro place nodes hj deep fn
    rw [layOut.eq_def, funext (momentsOfLayers.eq_def _ _ _ _ _ _ _)]
    cases parent? nodes with
    | none => exact hj place view nodes (Nat.le_refl _) (by omega) fn
    | some e =>
      refine ((maintains_flat setting jumps (by omega)).evaluate e).next fun name => ?_
      refine .lift_bind (fun outer found => ?_) fun cause failed => ⟨?_, fun _ => ?_⟩
      · have found := template?_of_require found
        simp only [found]
        exact ih (fun place view nodes le => hj place view nodes (by simp at le; omega))
          (by simp only; omega) (flat.nodes found)
      · exact fun same => settled_require flat.settled name.text (same ▸ failed)
      · dsimp only
        split
        · rename_i outer found
          rw [require_of_template? found] at failed
          cases failed
        · rfl

theorem runs_document {depth : Nat} (hj : FlatFrom depth jumps elsewhere) (deep : depth ≤ maxNesting)
    {template : Template} (ft : AllFlat (partsOfAll template.nodes)) (calls : Nat) (view : View) :
    RunsFlat (document setting jumps template depth calls)
      (momentsOfDocument setting jumps elsewhere template depth calls view) :=
  runs_layOut flat template.name view _ hj (by simp only; omega) ft

theorem runs_include? {place : Place} (hj : FlatFrom (place.depth + 1) jumps elsewhere) (view : View)
    (name : String) (ignoreMissing withContext : Bool) :
    RunsFlat (include? setting jumps place name ignoreMissing withContext)
      (momentsOfInclusion setting jumps elsewhere place view name withContext) := by
  rw [include?, funext (momentsOfInclusion.eq_def _ _ _ _ _ _ _)]
  refine .lift_bind (fun found h => ?_) fun cause failed => ⟨?_, fun _ => by rw [failed]⟩
  · simp only [h]
    cases found with
    | none =>
      cases ignoreMissing with
      | true => exact .pure _
      | false => exact .throw (by simp)
    | some included =>
      by_cases deep : maxNesting ≤ place.depth
      · simp only [deep, if_true]
        exact .throw (by simp)
      · simp only [deep, if_false]
        have inside := runs_document flat hj (by omega) (flat.nodes h) place.calls (view.inInclusion withContext)
        cases withContext with
        | true => exact inside.inScope (fun _ bare => bare) fun _ bare => bare
        | false => exact inside.isolated rfl
  · exact fun same => flat.settled name (same ▸ failed)

theorem runs_imported {place : Place} (shallow : place.depth ≤ maxNesting) (template : Expr) {α : Type}
    {next : List Definition → Rendering α} (hn : RunsFlat (next []) (fun _ => [])) :
    RunsFlat (imported setting jumps place template >>= next) (fun _ => []) := by
  rw [imported]
  simp only [bind_assoc, pure_bind]
  refine ((maintains_flat setting jumps shallow).evaluate template).first fun name =>
    .lift_bind (fun found h => ?_) fun cause failed => ⟨?_, fun _ => rfl⟩
  · rwa [Node.exports_eq_nil (flat.nodes (template?_of_require h))]
  · exact fun same => settled_require flat.settled name.text (same ▸ failed)

theorem runs_reaching {place : Place} (hj : FlatFrom (place.depth + 1) jumps elsewhere)
    (shallow : place.depth ≤ maxNesting) : ∀ ⦃node⦄, node.isFlat → node.reaches → ∀ view,
    RunsFlat (renderNode setting jumps place node) (momentsOf setting jumps elsewhere place view node) := by
  have hm := maintains_flat setting jumps shallow
  intro node fn reaches view
  cases node with
  | inclusion name ignoreMissing withContext =>
    exact Runs.cons ((hm.evaluate name).next fun name => runs_include? flat hj view name.text _ _)
      fun _ => hm.moment fn
  | importAs template group =>
    exact (runs_imported flat shallow template ((Runs.modify fun _ bare => bare).first fun _ => .pure _)).cons
      fun _ => hm.moment fn
  | importFrom template names =>
    refine (runs_imported flat shallow template ?_).cons fun _ => hm.moment fn
    cases names with
    | nil => exact .pure _
    | cons shown names => exact .throw nofun
  | text | output | branch | loop | assign | extend | filterBlock => cases reaches
  | block | define | callBlock => cases fn

/-- Each inclusion and each parent costs a jump, so bodies at a depth do with as many as are left up to the limit. -/
theorem flatFrom_within (n : Nat) :
    FlatFrom (maxNesting + 1 - n) (.within setting n) (momentsWithin setting n) := by
  induction n with
  | zero =>
    intro place view nodes deep shallow
    omega
  | succ n ih =>
    intro place view nodes deep shallow fn
    have inner : FlatFrom (place.depth + 1) (.within setting n) (momentsWithin setting n) :=
      fun place view nodes le => ih place view nodes (by omega)
    exact (maintains_flat setting (.within setting n) shallow).runs_momentsOfAll (runs_reaching flat inner shallow)
      view fn

/-- A template settles within one jump more than inclusions and parents may nest, and never stands deeper. -/
theorem runs_of_isFlat {template : Template} (ft : AllFlat (partsOfAll template.nodes)) {n : Nat}
    (enough : maxNesting < n) : RunsFlat (document setting (.within setting n) template 0 0)
      (momentsOfDocument setting (.within setting n) (momentsWithin setting n) template 0 0 .outermost) :=
  runs_document flat (fun place view nodes _ => flatFrom_within flat n place view nodes (by omega))
    (Nat.zero_le _) ft 0 .outermost

end Flat

/-! ### Nesting that is too deep -/

/-- Rendering opens a template: the one it starts with, the parent of one that it has opened, or one that it includes.
It finds the context, and the place counts the inclusions and parents that lead there. -/
inductive Opens (setting : Setting) (template : Template) (globals : Namespace) :
    Jumps → Place → Template → Context → Prop
  | outermost : Opens setting template globals (.within setting maxJumps) ⟨[], 0, 0⟩ template (.ofNamespace globals)
  | parent {jumps : Jumps} {place : Place} {opened outer : Template} {context : Context} {e : Expr} {name : Value}
      (child : Opens setting template globals jumps place opened context) (extends? : parent? opened.nodes = some e)
      (value : eval setting jumps place.calls context e = .ok name)
      (found : setting.template? name.text = .ok (some outer)) :
      Opens setting template globals jumps
        ⟨place.overrides ++ blocksIn opened.nodes, place.depth + 1, place.calls⟩ outer context
  | inclusion {moment : Moment} {e : Expr} {ignoreMissing withContext : Bool} {name : Value} {included : Template}
      (comes : moment ∈ template.moments setting globals)
      (node : moment.node = .inclusion e ignoreMissing withContext)
      (value : eval setting moment.jumps moment.place.calls moment.context e = .ok name)
      (found : setting.template? name.text = .ok (some included)) :
      Opens setting template globals moment.jumps ⟨[], moment.place.depth + 1, moment.place.calls⟩ included
        (if withContext then moment.context.push [] else .ofNamespace .empty)

theorem include?_eq {setting : Setting} {jumps : Jumps} {place : Place} {name : String} {included : Template}
    (found : setting.template? name = .ok (some included)) (ignoreMissing withContext : Bool) :
    include? setting jumps place name ignoreMissing withContext =
      if maxNesting ≤ place.depth then throw (.inclusionTooDeep name)
      else if withContext then
        Rendering.inScope [] (document setting jumps included (place.depth + 1) place.calls)
      else Rendering.isolated (.ofNamespace .empty)
        (document setting jumps included (place.depth + 1) place.calls) := by
  rw [include?, found]
  by_cases deep : maxNesting ≤ place.depth
  · simp only [deep, if_true]
    rfl
  · simp only [deep, if_false]
    rfl

section Parent

variable {setting : Setting} {jumps : Jumps} {place : Place} {nodes : List Node} {context : Context} {e : Expr}
variable {name : Value} {outer : Template}

theorem layOut_zero (extends? : parent? nodes = some e) (value : eval setting jumps place.calls context e = .ok name)
    (found : setting.template? name.text = .ok (some outer)) (start : String) :
    layOut setting jumps start 0 place nodes context = (.error (.parentsTooDeep start), context) := by
  rw [layOut, extends?]
  simp only [evaluate_bind value, require_of_template? found]
  rfl

theorem layOut_succ (extends? : parent? nodes = some e) (value : eval setting jumps place.calls context e = .ok name)
    (found : setting.template? name.text = .ok (some outer)) (start : String) (allowed : Nat) :
    layOut setting jumps start (allowed + 1) place nodes context =
      layOut setting jumps start allowed ⟨place.overrides ++ blocksIn nodes, place.depth + 1, place.calls⟩ outer.nodes
        context := by
  rw [layOut, extends?]
  simp only [evaluate_bind value, require_of_template? found]
  rfl

end Parent

/-- Whatever a template that is opened at an admitted depth fails with, the rendering fails with, and where the depth is
not admitted it has failed. -/
theorem fails_of_opens {setting : Setting} {template : Template} {globals : Namespace} {jumps : Jumps} {place : Place}
    {opened : Template} {context : Context} (h : Opens setting template globals jumps place opened context) :
    (maxNesting < place.depth → ∃ name, template.render setting globals = .error (.inclusionTooDeep name) ∨
      template.render setting globals = .error (.parentsTooDeep name)) ∧
    (place.depth ≤ maxNesting → ∃ start, ∀ cause,
      (layOut setting jumps start (maxNesting - place.depth) place opened.nodes context).1 = .error cause →
        template.render setting globals = .error cause) := by
  induction h with
  | outermost =>
    exact ⟨fun deep => absurd deep (Nat.not_lt_zero _), fun _ => ⟨template.name, fun cause failed => failed⟩⟩
  | @parent jumps place opened outer context e name child extends? value found ih =>
    refine ⟨fun deep => ?_, fun admitted => ?_⟩
    · by_cases before : maxNesting < place.depth
      · exact ih.1 before
      · obtain ⟨start, fails⟩ := ih.2 (by omega)
        obtain last : maxNesting - place.depth = 0 := by simp only at deep; omega
        refine ⟨start, .inr (fails _ ?_)⟩
        rw [last, layOut_zero extends? value found]
    · simp only at admitted
      obtain ⟨start, fails⟩ := ih.2 (by omega)
      refine ⟨start, fun cause failed => fails cause ?_⟩
      rw [show maxNesting - place.depth = maxNesting - (place.depth + 1) + 1 by omega,
        layOut_succ extends? value found]
      exact failed
  | @inclusion moment e ignoreMissing withContext name included comes node value found =>
    have fails {cause : RenderError} (failed : (include? setting moment.jumps moment.place name.text ignoreMissing
        withContext moment.context).1 = .error cause) : template.render setting globals = .error cause := by
      refine render_eq_error comes ?_
      rw [Moment.Fails, node, renderNode, evaluate_bind value]
      exact failed
    refine ⟨fun deep => ⟨name.text, .inl (fails ?_)⟩, fun admitted => ⟨included.name, fun cause failed => fails ?_⟩⟩
    · rw [include?_eq found, if_pos (by simp only at deep; omega)]
      rfl
    · rw [include?_eq found, if_neg (by simp only at admitted; omega)]
      cases withContext with
      | true => exact failed
      | false => exact failed

end Template

namespace Library

variable {library : Library}

/-- No template has a block or a macro in it. -/
def IsFlat (library : Library) : Prop :=
  ∀ entry ∈ library.templates, AllFlat (partsOfAll entry.2.nodes)

instance (library : Library) : Decidable library.IsFlat :=
  inferInstanceAs (Decidable (∀ entry ∈ library.templates, AllFlat (partsOfAll entry.2.nodes)))

theorem IsFlat.setting (flat : library.IsFlat) : library.setting.IsFlat where
  nodes _ _ found := flat _ (mem_templates_of_get? (get?_of_template? found))
  settled := settled_template? library

theorem render_eq {name : String} {template : Template} (found : library.get? name = some template)
    (globals : Namespace) : library.render name globals = template.render library.setting globals := by
  have required : library.require name = .ok template := by
    refine require_of_template? ?_
    change library.template? name = _
    rw [template?, found]
  rw [render, required]
  rfl

theorem settled_renderWithin (flat : library.IsFlat) {name : String} {template : Template}
    (found : library.get? name = some template) (globals : Namespace) {n : Nat} (enough : maxNesting < n) :
    Settled (renderWithin library.setting n template globals) := by
  have runs := runs_of_isFlat flat.setting (flat _ (mem_templates_of_get? found)) enough
  have start : (Context.ofNamespace globals).Bare := rfl
  exact fun unsettled => runs.cause start unsettled rfl

/-- However the templates of a library include and extend one another, as long as there are no blocks and macros
in them, rendering any of them settles, and does so with one jump more than inclusions and parents may nest.
It comes to no node below that depth, and if it opens a template below it, it fails for that reason. -/
theorem render_of_isFlat (flat : library.IsFlat) (name : String) (globals : Namespace) :
    Settled (library.render name globals) ∧ ∀ template, library.get? name = some template →
      (∀ budget, maxNesting < budget →
        renderWithin library.setting budget template globals = library.render name globals) ∧
      (∀ moment ∈ template.moments library.setting globals, moment.place.depth ≤ maxNesting) ∧
      ∀ jumps place opened context, Opens library.setting template globals jumps place opened context →
        maxNesting < place.depth → ∃ child, library.render name globals = .error (.inclusionTooDeep child) ∨
          library.render name globals = .error (.parentsTooDeep child) := by
  have jumps : maxNesting < maxJumps := by decide
  refine ⟨?_, fun template found => ⟨fun budget enough => ?_, ?_, ?_⟩⟩
  · rw [render]
    cases required : library.require name with
    | error cause =>
      exact .error fun same => settled_require (settled_template? library) name (same ▸ required)
    | ok template =>
      exact settled_renderWithin flat (get?_of_template? (template?_of_require required)) globals jumps
  · rw [render_eq found, render_eq_renderWithin]
    have settled := settled_renderWithin flat found globals (Nat.lt_succ_self maxNesting)
    exact (renderWithin_eq_of_le enough settled).trans (renderWithin_eq_of_le jumps settled).symm
  · exact (runs_of_isFlat flat.setting (flat _ (mem_templates_of_get? found)) jumps).moment rfl
  · intro jumps place opened context opens deep
    rw [render_eq found]
    exact (fails_of_opens opens).1 deep

/-- A template includes another, which extends it. -/
theorem render_of_cycle :
    let texts := [("a", "\x7b% include 'b' %\x7d"), ("b", "\x7b% extends 'a' %\x7d")]
    ∃ library template, ofList texts = .ok library ∧ library.IsFlat ∧ library.get? "a" = some template ∧
      ∀ budget, maxNesting < budget →
        renderWithin library.setting budget template .empty = .error (.inclusionTooDeep "b") := by
  intro texts
  have shown : (ofList texts).toOption.bind (fun library => (library.get? "a").map fun _ =>
      (decide library.IsFlat, library.render "a" .empty)) = some (true, .error (.inclusionTooDeep "b")) := by
    decide +kernel
  cases made : ofList texts with
  | error error => rw [made] at shown; cases shown
  | ok library =>
    rw [made] at shown
    obtain ⟨template, found, shown⟩ := Option.map_eq_some_iff.1 shown
    rw [Prod.mk.injEq, decide_eq_true_eq] at shown
    refine ⟨library, template, rfl, shown.1, found, fun budget enough => ?_⟩
    rw [((render_of_isFlat shown.1 "a" .empty).2 template found).1 budget enough, shown.2]

end Library

end Folio
