import Folio.Proofs.Template.Invocation
import Folio.Proofs.Template.Parallel
import Folio.Proofs.Template.Shown

/-! Renderings that stay alike. If bodies and defaults that stand elsewhere come to the same in contexts that are alike,
so does every expression, and every node comes to the same text and leaves contexts that are alike again; by induction
on the jumps this holds however deep they go. -/
namespace Folio.Template

open Node (partsOfAll partsOfArms partsOfOption)

theorem template?_error_or_missing {setting : Setting} {name : String} {cause : RenderError}
    (failed : require setting name = .error cause) :
    setting.template? name = .error cause ∨ cause = .missingTemplate name := by
  rw [require] at failed
  cases found : setting.template? name with
  | error other =>
    rw [found] at failed
    exact .inl (congrArg Except.error (Except.error.inj failed))
  | ok template? =>
    rw [found] at failed
    cases template? with
    | none => exact .inr (Except.error.inj failed).symm
    | some template => cases failed

/-- The parts of the body of a macro that is offered are parts of the document. -/
theorem mem_exports {nodes : List Node} {definition : Definition} (m : definition ∈ exports nodes) :
    Node.define definition.name definition.params definition.body ∈ nodes := by
  obtain ⟨node, mn, found⟩ := List.mem_filterMap.1 m
  cases node with
  | define name params body =>
    cases Option.some.inj found
    exact mn
  | _ => cases found

theorem mem_of_parent? {nodes : List Node} {e : Expr} (h : parent? nodes = some e) : Node.extend e ∈ nodes := by
  obtain ⟨node, m, found⟩ := List.exists_of_findSome?_eq_some h
  cases node with
  | extend parent =>
    cases Option.some.inj found
    exact m
  | _ => cases found

namespace Terms

variable {t : Terms} {setting : Setting} {jumps jumps' : Jumps}

/-- The bodies that replace blocks are the same at both places, and may be rendered. -/
structure SameBlocks (t : Terms) (place place' : Place) : Prop where
  same : place.overrides = place'.overrides
  admits : ∀ entry ∈ place.overrides, ∀ part ∈ partsOfAll entry.2, t.AdmitsNode part

/-- The node may be rendered at both places. -/
structure AdmitsAt (t : Terms) (place place' : Place) (part : Node) : Prop where
  here : t.AdmitsNode part
  block : ∀ name body, part = .block name body → t.SameBlocks place place'

/-- What stands elsewhere comes to the same. -/
structure Keep (t : Terms) (jumps jumps' : Jumps) : Prop where
  value : ∀ {k calls calls' context context' e}, t.Close calls calls' → t.Alike k context context' → t.admits e →
    t.Agree (jumps.value calls context e) (jumps'.value calls' context' e)
  body : ∀ {place place' nodes}, t.Near place place' → (∀ part ∈ partsOfAll nodes, t.AdmitsAt place place' part) →
    ∀ k, t.Follows k (jumps.body place nodes) (jumps'.body place' nodes)

theorem SameBlocks.admitsAt {place place' : Place} (blocks : t.SameBlocks place place') {nodes : List Node}
    (ok : ∀ part ∈ partsOfAll nodes, t.AdmitsNode part) : ∀ part ∈ partsOfAll nodes, t.AdmitsAt place place' part :=
  fun part m => ⟨ok part m, fun _ _ _ => blocks⟩

theorem sameBlocks_nil (depth depth' calls calls' : Nat) :
    t.SameBlocks ⟨[], depth, calls⟩ ⟨[], depth', calls'⟩ :=
  ⟨rfl, nofun⟩

namespace Covers

variable (hc : t.Covers setting)
include hc

theorem operational {α : Type} {result : Except RenderError α} (h : Operational result) : t.Agree result result :=
  .self fun _ failed => hc.common fun same => by cases same ▸ h failed

theorem only {e inner : Expr} (admits : t.admits e) (children : e.children = [inner]) : t.admits inner :=
  hc.children admits inner (children ▸ List.mem_singleton_self inner)

theorem both {e left right : Expr} (admits : t.admits e) (children : e.children = [left, right]) :
    t.admits left ∧ t.admits right := by
  have all := hc.children admits
  rw [children, List.forall_mem_cons, List.forall_mem_singleton] at all
  exact all

/-- A test fails as operations do, or overflows. -/
theorem test {name : String} {target : Expr} {args : List Expr} {negated : Bool}
    (admits : t.admits (.test name target args negated)) {calls : Nat} {context : Context} {value : Value}
    {values : List Value} (hv : eval setting jumps calls context target = .ok value)
    (ha : evalAll setting jumps calls context args = .ok values) :
    t.Agree (value.test name values) (value.test name values) := by
  refine .self fun cause failed => ?_
  rcases test_of_error failed with operational | ⟨rfl, least⟩
  · exact hc.common fun same => by cases same ▸ operational
  · exact hc.overflow admits ⟨jumps, calls, context, value, values, hv, ha, least⟩

end Covers

section Lockstep

set_option linter.unusedSectionVars false

variable (hc : t.Covers setting) (hk : t.Keep jumps jumps')
include hc hk

/-! ### Expressions -/

/-- The local variables around a call come in by the defaults of parameters only. -/
theorem agree_invoke {calls calls' : Nat} (close : t.Close calls calls') {context context' : Context}
    (akin : t.Akin context context') {callable : Callable} (ok : t.AdmitsDefinition callable.definition)
    (captured : t.opens callable.captured) {args : List Value}
    (bound : t.Agree (bindParams jumps calls context callable.definition.params args [])
      (bindParams jumps' calls' context' callable.definition.params args []))
    {caller : Option Callable} (oc : ∀ body ∈ caller, t.knows callerName body ∧ t.AdmitsDefinition body.definition) :
    t.Agree (invoke jumps calls callable args context caller) (invoke jumps' calls' callable args context' caller) := by
  rw [invoke, invoke]
  refine .limit close (.macroTooDeep callable.definition.name) rfl (hc.common (by simp))
    (bound.bind fun bound hb => ?_)
  -- Whatever the scopes are outside, both bodies find the same ones.
  have inside : t.Alike 0 { context with scopes := [bound, callable.captured] }
      { context' with scopes := [bound, callable.captured] } :=
    ⟨⟨akin.globals, akin.macros, akin.known⟩,
      .same (hc.bindable.bindParams hc.bindable.nil hb) fun _ m => List.mem_singleton.1 m ▸ captured⟩
  have near : t.Near ⟨[], 0, calls + 1⟩ ⟨[], 0, calls' + 1⟩ := ⟨.inl rfl, close.map (· + 1)⟩
  have body := hk.body near ((sameBlocks_nil ..).admitsAt ok.body) 0
  cases caller with
  | none => exact body.agree inside
  | some called => exact body.agree (inside.bindMacro (oc called rfl).1 (oc called rfl).2)

section Expressions

variable {k calls calls' : Nat} {context context' : Context} (close : t.Close calls calls')
variable (alike : t.Alike k context context')
include close alike

theorem agree_bindParams {params : List Param} (ok : ∀ param ∈ params, ∀ e ∈ param.default, t.admits e) :
    ∀ (args : List Value) (bound : Scope), t.Agree (bindParams jumps calls context params args bound)
      (bindParams jumps' calls' context' params args bound) := by
  induction params with
  | nil => exact fun _ bound => .ok bound
  | cons param params ih =>
    rw [List.forall_mem_cons] at ok
    rintro (_ | ⟨arg, args⟩) bound
    · rw [bindParams, bindParams]
      refine .bind ?_ fun value _ => ih ok.2 [] _
      cases default : param.default with
      | none => exact .ok _
      | some e => exact hk.value close alike (ok.1 e default)
    · exact ih ok.2 args _

/-- What a path names in the second context it names in the first one too, or the first rendering ends there. -/
theorem agree_callee {α : Type} (callee : Expr) {a b : Except RenderError α}
    (found : ∀ callable, t.AdmitsDefinition callable.definition → t.opens callable.captured →
      callee.path?.bind context.macro? = some callable → callee.path?.bind context'.macro? = some callable →
        t.Agree a b)
    (missing : callee.path?.bind context.macro? = none → callee.path?.bind context'.macro? = none → t.Agree a b)
    (unknown : callee.path? = some callerName → callee.path?.bind context.macro? = none →
      t.first .notCallable → t.first .callTarget → t.Agree a b) : t.Agree a b := by
  cases path : callee.path? with
  | none => exact missing (by rw [path]; rfl) (by rw [path]; rfl)
  | some name =>
    have known (context : Context) : callee.path?.bind context.macro? = context.macro? name := by rw [path]; rfl
    simp only [known] at found missing unknown
    rcases alike.macros name with same | ⟨rfl, absent, call, target⟩
    · cases present : context'.macro? name with
      | none => exact missing (same.trans present) present
      | some callable =>
        obtain ⟨knows, ok⟩ := alike.known present
        exact found callable ok (hc.captured knows) (same.trans present) present
    · exact unknown path absent call target

mutual

theorem agree_eval : ∀ {e : Expr}, t.admits e →
    t.Agree (eval setting jumps calls context e) (eval setting jumps' calls' context' e)
  | .literal value, _ => .ok value
  | .var name, _ => by
    rw [eval, eval, alike.lookup]
    exact .ok _
  | .lookup base key, ok => by
    obtain ⟨hl, hr⟩ := hc.both ok rfl
    rw [eval, eval]
    exact (agree_eval hl).bind fun _ _ => (agree_eval hr).bind fun _ _ => .ok _
  | .compare op left right, ok => by
    obtain ⟨hl, hr⟩ := hc.both ok rfl
    rw [eval, eval]
    exact (agree_eval hl).bind fun a _ => (agree_eval hr).bind fun b _ =>
      (hc.operational (operational_comparison op a b)).bind fun _ _ => .ok _
  | .binary op left right, ok => by
    obtain ⟨hl, hr⟩ := hc.both ok rfl
    rw [eval, eval]
    exact (agree_eval hl).bind fun a _ => (agree_eval hr).bind fun b _ => hc.operational (operational_operator op a b)
  | .and left right, ok => by
    obtain ⟨hl, hr⟩ := hc.both ok rfl
    rw [eval, eval]
    refine (agree_eval hl).bind fun value _ => ?_
    split
    · exact agree_eval hr
    · exact .ok _
  | .or left right, ok => by
    obtain ⟨hl, hr⟩ := hc.both ok rfl
    rw [eval, eval]
    refine (agree_eval hl).bind fun value _ => ?_
    split
    · exact .ok _
    · exact agree_eval hr
  | .not inner, ok | .isDefined inner, ok => by
    rw [eval, eval]
    exact (agree_eval (hc.only ok rfl)).bind fun _ _ => .ok _
  | .neg inner, ok => by
    rw [eval, eval]
    exact (agree_eval (hc.only ok rfl)).bind fun value _ => hc.operational (operational_negate value)
  | .filter name target args, ok => by
    have ok := List.forall_mem_cons.1 (hc.children ok)
    rw [eval, eval]
    exact (agree_eval ok.1).bind fun value _ => (agree_evalAll ok.2).bind fun args _ =>
      hc.operational (operational_filter value args name setting.locale)
  | .test name target args negated, admits => by
    have ok := List.forall_mem_cons.1 (hc.children admits)
    rw [eval, eval]
    exact (agree_eval ok.1).bind fun value hv => (agree_evalAll ok.2).bind fun values ha =>
      (hc.test admits hv ha).bind fun _ _ => .ok _
  | .call callee args, ok => by
    have all := agree_evalAll (List.forall_mem_cons.1 (hc.children ok)).2
    rw [eval, eval]
    refine agree_callee hc hk close alike callee (fun callable ok captured found found' => ?_)
      (fun missing missing' => ?_) fun path missing uncallable _ => ?_
    · rw [found, found']
      exact all.bind fun args _ => (agree_invoke hc hk close alike.toAkin ok captured
        (agree_bindParams hc hk close alike ok.defaults args []) (fun _ m => by cases m)).bind fun _ _ => .ok _
    · rw [missing, missing', callFunction_eq, callFunction_eq]
      cases callee.isRange with
      | true => exact all.bind fun values _ => hc.operational (operational_range values)
      | false => exact .error (hc.common (by simp))
    · -- The path is `caller`, and so what is called is not the function for ranges.
      rw [missing, callFunction_eq, if_neg]
      · exact .inl (.inl ⟨_, uncallable, rfl⟩)
      · intro range
        rw [Expr.isRange.eq_def] at range
        split at range
        · exact absurd (Option.some.inj path) (by decide)
        · cases range
  | .list items, ok => by
    rw [eval, eval]
    exact (agree_evalAll (hc.children ok)).bind fun _ _ => .ok _
  | .dict entries, ok => by
    rw [eval, eval]
    refine (agree_evalEntries fun entry m => ?_).bind fun _ _ => .ok _
    have ok := hc.children ok
    exact ⟨ok _ (List.mem_flatMap.2 ⟨entry, m, by simp⟩), ok _ (List.mem_flatMap.2 ⟨entry, m, by simp⟩)⟩
  | .inlineIf value condition otherwise, ok => by
    have ok := hc.children ok
    rw [eval, eval]
    refine (agree_eval (ok condition (by simp [Expr.children]))).bind fun holds _ => ?_
    split
    · exact agree_eval (ok value (by simp [Expr.children]))
    · exact agree_evalOption fun e m => ok e (by simp [Expr.children, Option.mem_def.1 m])

theorem agree_evalAll : ∀ {es : List Expr}, (∀ e ∈ es, t.admits e) →
    t.Agree (evalAll setting jumps calls context es) (evalAll setting jumps' calls' context' es)
  | [], _ => .ok _
  | e :: es, ok => by
    rw [List.forall_mem_cons] at ok
    rw [evalAll, evalAll]
    exact (agree_eval ok.1).bind fun _ _ => (agree_evalAll ok.2).bind fun _ _ => .ok _

theorem agree_evalEntries : ∀ {entries : List (Expr × Expr)},
    (∀ entry ∈ entries, t.admits entry.1 ∧ t.admits entry.2) →
    t.Agree (evalEntries setting jumps calls context entries) (evalEntries setting jumps' calls' context' entries)
  | [], _ => .ok _
  | (key, value) :: entries, ok => by
    rw [List.forall_mem_cons] at ok
    rw [evalEntries, evalEntries]
    exact (agree_eval ok.1.1).bind fun _ _ => (agree_eval ok.1.2).bind fun _ _ =>
      (agree_evalEntries ok.2).bind fun _ _ => .ok _

theorem agree_evalOption : ∀ {e? : Option Expr}, (∀ e ∈ e?, t.admits e) →
    t.Agree (evalOption setting jumps calls context e?) (evalOption setting jumps' calls' context' e?)
  | none, _ => .ok _
  | some e, ok => agree_eval (ok e rfl)

end

theorem agree_calledWith {params : List Param} {body : List Node} {call : Expr}
    (ok : t.AdmitsDefinition ⟨callerName, params, body⟩) (admits : t.admits call) :
    t.Agree (calledWith setting jumps calls context params body call)
      (calledWith setting jumps' calls' context' params body call) := by
  cases call with
  | call callee args =>
    have all := agree_evalAll hc hk close alike (List.forall_mem_cons.1 (hc.children admits)).2
    rw [calledWith, calledWith]
    refine agree_callee hc hk close alike callee (fun callable known captured found found' => ?_)
      (fun missing missing' => ?_) fun path missing _ target => ?_
    · rw [found, found', alike.locals]
      refine all.bind fun args _ => agree_invoke hc hk close alike.toAkin known captured
        (agree_bindParams hc hk close alike known.defaults args []) ?_
      rintro _ ⟨⟩
      exact ⟨hc.caller _ (hc.bindable.overlaid _), ok⟩
    · rw [missing, missing']
      exact .error (hc.common (by simp))
    · rw [missing]
      exact .inl (.inl ⟨_, target, rfl⟩)
  | _ => exact .error (hc.common (by simp))

end Expressions

/-! ### Nodes -/

section Nodes

section Near

variable {place place' : Place} (near : t.Near place place') {k : Nat}
include near

theorem follows_evaluate {e : Expr} (ok : t.admits e) :
    t.Follows k (evaluate setting jumps place e) (evaluate setting jumps' place' e) :=
  .of_agree (evaluate_apply place e) (evaluate_apply place' e) fun _ _ alike =>
    agree_eval hc hk near.calls alike ok

theorem follows_evaluateAll {es : List Expr} (ok : ∀ e ∈ es, t.admits e) :
    t.Follows k (evaluateAll setting jumps place es) (evaluateAll setting jumps' place' es) :=
  .of_agree (fun context => lift_apply (evalAll setting jumps place.calls context es) context)
    (fun context => lift_apply (evalAll setting jumps' place'.calls context es) context) fun _ _ alike =>
    agree_evalAll hc hk near.calls alike ok

end Near

theorem follows_forEach {k : Nat} {targets : List String} {a b : Rendering String} (h : t.Follows (k + 1) a b)
    (length : Nat) (items : List Value) : ∀ index done,
      t.Follows k (forEach targets a length index items done) (forEach targets b length index items done) := by
  induction items with
  | nil => exact fun _ _ => .pure _
  | cons item items ih =>
    intro index done
    rw [forEach, forEach]
    refine .lift_bind (fun cause failed => hc.common fun same => ?_) fun scope bound => ?_
    · cases same ▸ operational_bindTargets item targets failed
    · have here := hc.bindable.put (hc.bindable.bindTargets bound) loopName (progress index length)
      exact (h.inScope here).bind fun text => ih _ _

theorem follows_require_bind (name : String) {k : Nat} {α : Type} {f g : Template → Rendering α}
    (hf : ∀ template, (∀ part ∈ partsOfAll template.nodes, t.AdmitsNode part) → t.Follows k (f template) (g template)) :
    t.Follows k (liftM (require setting name) >>= f) (liftM (require setting name) >>= g) := by
  refine .lift_bind (fun cause failed => ?_) fun template found =>
    hf template (hc.template (template?_of_require found))
  rcases template?_error_or_missing failed with found | rfl
  · exact hc.found found
  · exact hc.common (by simp)

theorem follows_layOut (start : String) {k allowed allowed' : Nat} (close : t.Close allowed allowed')
    {place place' : Place} (near : t.Near place place') (blocks : t.SameBlocks place place') {nodes : List Node}
    (ok : ∀ part ∈ partsOfAll nodes, t.AdmitsNode part) :
    t.Follows k (layOut setting jumps start allowed place nodes)
      (layOut setting jumps' start allowed' place' nodes) := by
  rw [layOut.eq_def, layOut.eq_def]
  cases parent : parent? nodes with
  | none => exact hk.body near (blocks.admitsAt ok) k
  | some e =>
    have admits := ok _ (Node.mem_partsOfAll.2 ⟨_, mem_of_parent? parent, Node.self_mem_parts _⟩)
    refine (follows_evaluate hc hk near (admits e (by simp [Node.exprs]))).bind fun name => ?_
    refine follows_require_bind hc hk name.text fun outer oo => ?_
    -- Where only one of the two has come to its last parent, the depths differ, and limits end the comparison.
    cases allowed with
    | zero =>
      cases allowed' with
      | zero => exact .throw (hc.common (by simp))
      | succ allowed' =>
        rcases close with same | lenient
        · cases same
        exact fun _ _ _ => .inl (.inl ⟨.parentsTooDeep start, (lenient rfl).1, rfl⟩)
    | succ allowed =>
      cases allowed' with
      | zero =>
        rcases close with same | lenient
        · cases same
        exact fun _ _ _ => .inl (.inr ⟨.parentsTooDeep start, (lenient rfl).2, rfl⟩)
      | succ allowed' =>
        have deeper : t.Near ⟨place.overrides ++ blocksIn nodes, place.depth + 1, place.calls⟩
            ⟨place'.overrides ++ blocksIn nodes, place'.depth + 1, place'.calls⟩ :=
          ⟨near.depth.map (· + 1), near.calls⟩
        refine follows_layOut start (close.map Nat.pred) deeper ⟨?_, ?_⟩ oo
        · exact congrArg (· ++ blocksIn nodes) blocks.same
        · intro entry m part mp
          rcases List.mem_append.1 m with m | m
          · exact blocks.admits entry m part mp
          · exact ok part (partsOf_blocks_subset m mp)
termination_by allowed

theorem follows_document {template : Template} (ok : ∀ part ∈ partsOfAll template.nodes, t.AdmitsNode part)
    {depth depth' calls calls' : Nat} (deep : t.Close depth depth') (close : t.Close calls calls') :
    t.Follows k (document setting jumps template depth calls) (document setting jumps' template depth' calls') :=
  follows_layOut hc hk _ (deep.map (maxNesting - ·)) ⟨deep, close⟩ (sameBlocks_nil ..) ok

theorem follows_include? {place place' : Place} (near : t.Near place place') {k : Nat} (name : String)
    (ignoreMissing withContext : Bool) : t.Follows k (include? setting jumps place name ignoreMissing withContext)
      (include? setting jumps' place' name ignoreMissing withContext) := by
  rw [include?, include?]
  refine Follows.lift_bind (fun _ => (hc.found ·)) fun found hf => ?_
  cases found with
  | none =>
    cases ignoreMissing with
    | true => exact .pure _
    | false => exact .throw (hc.common (by simp))
  | some included =>
    refine .limit near.depth (.inclusionTooDeep name) rfl (hc.common (by simp)) ?_
    have text (k : Nat) := follows_document hc hk (k := k) (hc.template hf) (near.depth.map (· + 1)) near.calls
    cases withContext with
    | true => exact (text (k + 1)).inScope hc.bindable.nil
    | false => exact .isolated ⟨⟨fun _ => rfl, fun _ => .inl rfl, fun _ _ h => by cases h⟩,
      .same hc.bindable.nil fun _ m => by cases m⟩ (text 0)

theorem follows_callWith {place place' : Place} (near : t.Near place place') {k : Nat} {params : List Param}
    {body : List Node} {call : Expr} (ok : t.AdmitsDefinition ⟨callerName, params, body⟩) (admits : t.admits call) :
    t.Follows k (callWith setting jumps place params body call) (callWith setting jumps' place' params body call) :=
  .of_agree (fun _ => callWith_apply place params body call) (fun _ => callWith_apply place' params body call)
    fun _ _ alike => agree_calledWith hc hk near.calls alike ok admits

/-- Whatever is offered for import may be called. -/
theorem follows_imported_bind {place place' : Place} (near : t.Near place place') {k : Nat} {e : Expr}
    (ok : t.admits e) {α : Type} {f g : List Definition → Rendering α}
    (hf : ∀ offered, (∀ definition ∈ offered, t.AdmitsDefinition definition) → t.Follows k (f offered) (g offered)) :
    t.Follows k (imported setting jumps place e >>= f) (imported setting jumps' place' e >>= g) := by
  rw [imported, imported, bind_assoc, bind_assoc]
  refine (follows_evaluate hc hk near ok).bind fun name => ?_
  rw [bind_assoc, bind_assoc]
  refine follows_require_bind hc hk name.text fun template all => hf _ fun definition m => ?_
  have parts := Node.mem_partsOfAll.2 ⟨_, mem_exports m, Node.self_mem_parts _⟩
  refine ⟨fun part mp => all part (Node.parts_subset_partsOfAll parts ?_), fun param mp e me => all _ parts e ?_⟩
  · exact List.mem_cons_of_mem _ mp
  · exact List.mem_filterMap.2 ⟨param, mp, me⟩

theorem follows_bindImported {k : Nat} {offered : List Definition} (ok : ∀ definition ∈ offered,
    t.AdmitsDefinition definition) (names : List (String × String)) :
    t.Follows k (bindImported offered names) (bindImported offered names) := by
  induction names with
  | nil => exact .pure _
  | cons name names ih =>
    rw [bindImported]
    cases found : offered.find? (·.name = name.1) with
    | none =>
      have missing : t.common (.missingMacro name.1) := hc.common (by simp)
      exact (Follows.throw missing).bind fun _ => ih
    | some definition =>
      refine Follows.bind (.modify fun _ _ alike => ?_) fun _ => ih
      exact alike.bindMacro (hc.plain _ _) (ok _ (List.mem_of_find?_eq_some found))

section Places

variable {place place' : Place} (near : t.Near place place')
include near

mutual

theorem follows_renderNode {k : Nat} : ∀ {node : Node}, (∀ part ∈ node.parts, t.AdmitsAt place place' part) →
    t.Follows k (renderNode setting jumps place node) (renderNode setting jumps' place' node)
  | .text _, _ | .extend _, _ => .pure _
  | .output e, ok => by
    have self := (ok _ (Node.self_mem_parts _)).here
    rw [renderNode, renderNode]
    exact (follows_evaluate hc hk near (self e (by simp [Node.exprs]))).bind fun _ => .pure _
  | .assign name value, ok => by
    have self := (ok _ (Node.self_mem_parts _)).here
    rw [renderNode, renderNode]
    exact (follows_evaluate hc hk near (self value (by simp [Node.exprs]))).bind fun value =>
      Follows.bind (.modify fun _ _ alike => alike.assign hc.bindable name value) fun _ => .pure _
  | .branch arms otherwise, ok => by
    have self := (ok _ (Node.self_mem_parts _)).here
    simp only [Node.parts, List.forall_mem_cons, List.forall_mem_append] at ok
    rw [renderNode, renderNode]
    exact follows_renderArms (fun arm m => self arm.1 (List.mem_map_of_mem m)) ok.2.1 (follows_renderOption ok.2.2)
  | .inclusion name ignoreMissing withContext, ok => by
    have self := (ok _ (Node.self_mem_parts _)).here
    rw [renderNode, renderNode]
    exact (follows_evaluate hc hk near (self name (by simp [Node.exprs]))).bind fun name =>
      follows_include? hc hk near name.text ignoreMissing withContext
  | .block name body, ok => by
    have blocks := (ok _ (Node.self_mem_parts _)).block name body rfl
    simp only [Node.parts, List.forall_mem_cons] at ok
    rw [renderNode, renderNode, ← blocks.same]
    cases replaced : place.overrides.lookup name with
    | none => exact follows_renderNodes ok.2
    | some replacement =>
      obtain ⟨before, after, found, -⟩ := List.lookup_eq_some_iff.1 replaced
      exact hk.body near (blocks.admitsAt (blocks.admits (name, replacement) (by simp [found]))) k
  | .loop targets items body otherwise, ok => by
    have self := (ok _ (Node.self_mem_parts _)).here
    simp only [Node.parts, List.forall_mem_cons, List.forall_mem_append] at ok
    rw [renderNode, renderNode]
    refine (follows_evaluate hc hk near (self items (by simp [Node.exprs]))).bind fun value => ?_
    refine (Follows.lift (hc.operational (operational_loopItems value targets))).bind fun items => ?_
    exact .ite (follows_renderOption ok.2.2) (follows_forEach hc hk (follows_renderNodes ok.2.1) _ _ _ _)
  | .define name params body, ok => by
    have self := (ok _ (Node.self_mem_parts _)).here
    simp only [Node.parts, List.forall_mem_cons] at ok
    refine Follows.bind (.modify fun _ _ alike => alike.bindMacro (hc.plain _ _) ⟨?_, ?_⟩) fun _ => .pure _
    · exact fun part m => (ok.2 part m).here
    · exact fun param m e default => self e (List.mem_filterMap.2 ⟨param, m, default⟩)
  | .callBlock params call body, ok => by
    have self := (ok _ (Node.self_mem_parts _)).here
    simp only [Node.parts, List.forall_mem_cons] at ok
    rw [renderNode, renderNode]
    refine follows_callWith hc hk near ⟨fun part m => (ok.2 part m).here, fun param m e default => self e ?_⟩
      (self call (List.mem_append_right _ (List.mem_singleton_self call)))
    exact List.mem_append_left _ (List.mem_filterMap.2 ⟨param, m, default⟩)
  | .filterBlock name args body, ok => by
    have self := (ok _ (Node.self_mem_parts _)).here
    simp only [Node.parts, List.forall_mem_cons] at ok
    rw [renderNode, renderNode]
    exact (follows_renderNodes ok.2).bind fun content => (follows_evaluateAll hc hk near self).bind fun args =>
      (Follows.lift (hc.operational (operational_filter (.string content) args name setting.locale))).bind
        fun _ => .pure _
  | .importAs template group, ok => by
    have self := (ok _ (Node.self_mem_parts _)).here
    rw [renderNode, renderNode]
    refine follows_imported_bind hc hk near (self template (by simp [Node.exprs])) fun offered all => ?_
    refine Follows.bind (.modify fun context context' alike => ?_) fun _ => .pure _
    induction offered generalizing context context' with
    | nil => exact alike
    | cons definition offered ih =>
      rw [List.forall_mem_cons] at all
      exact ih all.2 _ _ (alike.bindMacro (hc.plain _ _) all.1)
  | .importFrom template names, ok => by
    have self := (ok _ (Node.self_mem_parts _)).here
    rw [renderNode, renderNode]
    refine follows_imported_bind hc hk near (self template (by simp [Node.exprs])) fun offered all => ?_
    exact (follows_bindImported hc hk all names).bind fun _ => .pure _

theorem follows_renderNodes {k : Nat} : ∀ {nodes : List Node},
    (∀ part ∈ partsOfAll nodes, t.AdmitsAt place place' part) →
      t.Follows k (renderNodes setting jumps place nodes) (renderNodes setting jumps' place' nodes)
  | [], _ => .pure _
  | node :: nodes, ok => by
    rw [partsOfAll, List.forall_mem_append] at ok
    rw [renderNodes, renderNodes]
    exact (follows_renderNode ok.1).bind fun _ => (follows_renderNodes ok.2).bind fun _ => .pure _

theorem follows_renderArms {k : Nat} : ∀ {arms : List (Expr × List Node)} {otherwise otherwise' : Rendering String},
    (∀ arm ∈ arms, t.admits arm.1) → (∀ part ∈ partsOfArms arms, t.AdmitsAt place place' part) →
    t.Follows k otherwise otherwise' → t.Follows k (renderArms setting jumps place arms otherwise)
      (renderArms setting jumps' place' arms otherwise')
  | [], _, _, _, _, ho => ho
  | (condition, body) :: arms, _, _, conditions, ok, ho => by
    rw [List.forall_mem_cons] at conditions
    rw [partsOfArms, List.forall_mem_append] at ok
    rw [renderArms, renderArms]
    exact (follows_evaluate hc hk near conditions.1).bind fun _ =>
      .ite (follows_renderNodes ok.1) (follows_renderArms conditions.2 ok.2 ho)

theorem follows_renderOption {k : Nat} : ∀ {body : Option (List Node)},
    (∀ part ∈ partsOfOption body, t.AdmitsAt place place' part) →
    t.Follows k (renderOption setting jumps place body) (renderOption setting jumps' place' body)
  | none, _ => .pure _
  | some body, ok => follows_renderNodes (by rwa [partsOfOption] at ok)

end

end Places

end Nodes

end Lockstep

/-- However deep the jumps, what stands elsewhere comes to the same. -/
theorem Covers.keep_within (hc : t.Covers setting) (n : Nat) : ∀ {m : Nat}, t.Close n m →
    t.Keep (.within setting n) (.within setting m) := by
  have early {α : Type} (hl : t.Lenient) (b : Except RenderError α) : t.Agree (.error .unsettled) b :=
    .inl (.inl ⟨.unsettled, (hl rfl).1, rfl⟩)
  have late {α : Type} (hl : t.Lenient) (a : Except RenderError α) : t.Agree a (.error .unsettled) :=
    .inl (.inr ⟨.unsettled, (hl rfl).2, rfl⟩)
  have unsettled : t.common .unsettled := hc.common (by simp)
  -- By induction on the jumps, where those of one side may come to an end before those of the other.
  induction n with
  | zero =>
    rintro (_ | m) close
    · exact ⟨fun _ _ _ => .error unsettled, fun _ _ _ => .throw unsettled⟩
    · rcases close with same | lenient
      · cases same
      · exact ⟨fun _ _ _ => early lenient _, fun _ _ _ _ _ _ => .inl (.inl ⟨.unsettled, (lenient rfl).1, rfl⟩)⟩
  | succ n ih =>
    rintro (_ | m) close
    · rcases close with same | lenient
      · cases same
      · exact ⟨fun _ _ _ => late lenient _, fun _ _ _ _ _ _ => .inl (.inr ⟨.unsettled, (lenient rfl).2, rfl⟩)⟩
    · have inner := ih (close.map Nat.pred)
      exact ⟨fun close alike ok => agree_eval hc inner close alike ok,
        fun near ok k => follows_renderNodes hc inner near ok⟩

end Terms

end Folio.Template
