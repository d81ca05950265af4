import Folio.Proofs.Template.Characters
import Folio.Proofs.Template.Invocation
import Mathlib.Control.Monad.Basic

/-! Macros that call one another. The bodies of macros nest only so deep. The defaults of parameters are not counted, so
a macro whose default calls a macro may nest deeper, or never end. -/
namespace Folio

open Template
open Node (partsOfAll partsOfArms partsOfOption)

/-! ### Templates of macros -/

namespace Node

/-- Texts, outputs, branches, loops, assignments, macros and call blocks. -/
def isSelfContained : Node → Bool
  | .text _ | .output _ | .branch .. | .loop .. | .assign .. | .define .. | .callBlock .. => true
  | _ => false

/-- All of the nodes are self-contained. -/
def AllSelfContained (nodes : List Node) : Prop :=
  ∀ node ∈ nodes, node.isSelfContained

instance (nodes : List Node) : Decidable (AllSelfContained nodes) :=
  inferInstanceAs (Decidable (∀ node ∈ nodes, node.isSelfContained))

/-- What a node makes known to be called: a macro, or the body of a call block. -/
def definition? : Node → Option Definition
  | .define name params body => some ⟨name, params, body⟩
  | .callBlock params _ body => some ⟨callerName, params, body⟩
  | _ => none

/-- The macros of a template and the bodies of its call blocks. -/
def definitionsIn (nodes : List Node) : List Definition :=
  (partsOfAll nodes).filterMap definition?

theorem body_subset_of_mem {nodes : List Node} {definition : Definition} (m : definition ∈ definitionsIn nodes) :
    partsOfAll definition.body ⊆ partsOfAll nodes := by
  obtain ⟨node, mn, known⟩ := List.mem_filterMap.1 m
  have inside := parts_subset_partsOfAll mn
  cases node with
  | define name params body | callBlock params call body =>
    cases known
    exact List.Subset.trans (List.subset_cons_self ..) inside
  | _ => cases known

end Node

open Node (AllSelfContained definitionsIn)

/-- No default of a parameter calls anything under the name of a macro of the template. -/
def Node.Tame (nodes : List Node) : Prop :=
  ∀ definition ∈ definitionsIn nodes, ∀ param ∈ definition.params, ∀ e ∈ param.default, ∀ path ∈ e.callees,
    path ∉ (definitionsIn nodes).map Definition.name

instance (nodes : List Node) : Decidable (Node.Tame nodes) :=
  inferInstanceAs (Decidable (∀ definition ∈ definitionsIn nodes, ∀ param ∈ definition.params, ∀ e ∈ param.default,
    ∀ path ∈ e.callees, path ∉ (definitionsIn nodes).map Definition.name))

namespace Template

/-! ### Calls in progress -/

/-- What a macro that is being called is at: the defaults of its parameters, or its body. -/
inductive Phase where
  | binding
  | body
  deriving DecidableEq

namespace Call

/-- The context of the macro's body. -/
def inside (call : Call) (bound : Scope) : Context :=
  let inside : Context := { call.context with scopes := [bound, call.callable.captured] }
  call.caller.elim inside (inside.bindMacro callerName)

/-- The calls that a macro makes by itself while it is called, with so many jumps left after it. -/
def inner (setting : Setting) (n : Nat) (call : Call) : List (Phase × Call) :=
  let definition := call.callable.definition
  (callsOfParams setting (.within setting n) call.calls call.context definition.params call.args).map (.binding, ·) ++
    match bindParams (.within setting (n + 1)) call.calls call.context definition.params call.args [] with
    | .error _ => []
    | .ok bound =>
      ((momentsWithin setting (n + 1) ⟨[], 0, call.calls + 1⟩ .outermost definition.body (call.inside bound)).flatMap
        (Moment.invocations setting)).map (.body, ·)

end Call

/-- Rendering comes to a call, with so many jumps left. The calls in progress around it, the innermost first, are each
at their defaults or in their body; they have been admitted, and this one has not yet. -/
inductive Comes (setting : Setting) (template : Template) (globals : Namespace) : Nat → List Phase → Call → Prop
  | outermost {n : Nat} {moment : Moment} {call : Call} (comes : moment ∈ template.moments setting globals)
      (left : moment.jumps = .within setting n) (made : call ∈ moment.invocations setting) :
      Comes setting template globals n [] call
  | inner {n : Nat} {around : List Phase} {outer call : Call} {phase : Phase}
      (comes : Comes setting template globals (n + 1) around outer) (admitted : outer.calls < maxNesting)
      (made : (phase, call) ∈ outer.inner setting n) : Comes setting template globals n (phase :: around) call

theorem Call.run_eq (jumps : Jumps) (call : Call) : call.run jumps =
    if maxNesting ≤ call.calls then .error (.macroTooDeep call.callable.definition.name)
    else bindParams jumps call.calls call.context call.callable.definition.params call.args [] >>= fun bound =>
      (jumps.body ⟨[], 0, call.calls + 1⟩ call.callable.definition.body (call.inside bound)).1 := by
  rw [run, invoke]
  split
  · rfl
  · rfl

/-! ### What is known -/

/-- Every macro that is known is one of the definitions, under its name. -/
def Context.Knows (context : Context) (definitions : List Definition) : Prop :=
  ∀ entry ∈ context.macros, entry.2.definition ∈ definitions ∧ entry.2.definition.name = entry.1

theorem knows_ofNamespace (globals : Namespace) (definitions : List Definition) :
    (Context.ofNamespace globals).Knows definitions :=
  fun _ m => absurd m List.not_mem_nil

section Knows

variable {context : Context} {definitions : List Definition} (knows : context.Knows definitions)
include knows

theorem Context.Knows.definition {name : String} {callable : Callable} (h : context.macro? name = some callable) :
    callable.definition ∈ definitions ∧ callable.definition.name = name :=
  knows (name, callable) (Fields.mem_of_find? h)

theorem Context.Knows.bindMacro {name : String} {callable : Callable} (m : callable.definition ∈ definitions)
    (named : callable.definition.name = name) : (context.bindMacro name callable).Knows definitions := by
  intro entry me
  rcases Fields.mem_put me with rfl | me
  · exact ⟨m, named⟩
  · exact knows entry me

end Knows

/-- The call is of one of the definitions, for another one perhaps, and where no others are known. -/
structure Call.IsOf (definitions : List Definition) (call : Call) : Prop where
  knows : call.context.Knows definitions
  definition : call.callable.definition ∈ definitions
  caller : ∀ caller ∈ call.caller, caller.definition ∈ definitions ∧ caller.definition.name = callerName

theorem Call.IsOf.inside {definitions : List Definition} {call : Call} (h : call.IsOf definitions) (bound : Scope) :
    (call.inside bound).Knows definitions := by
  rw [Call.inside]
  cases caller : call.caller with
  | none => exact h.knows
  | some other =>
    obtain ⟨m, named⟩ := h.caller other caller
    exact Context.Knows.bindMacro h.knows m named

section Parts

variable {setting : Setting} {jumps : Jumps} {calls : Nat} {context : Context}

theorem mem_callsOfParams {call : Call} {params : List Param} : ∀ {args : List Value},
    call ∈ callsOfParams setting jumps calls context params args →
      ∃ param ∈ params, ∃ e ∈ param.default, call ∈ callsOf setting jumps calls context e := by
  induction params with
  | nil => exact fun m => by cases m
  | cons param params ih =>
    have later {args : List Value} (m : call ∈ callsOfParams setting jumps calls context params args) :
        ∃ param' ∈ param :: params, ∃ e ∈ param'.default, call ∈ callsOf setting jumps calls context e := by
      obtain ⟨other, mo, found⟩ := ih m
      exact ⟨other, List.mem_cons_of_mem _ mo, found⟩
    rintro (_ | ⟨arg, args⟩) m
    · rw [callsOfParams] at m
      cases default : param.default with
      | none =>
        rw [default] at m
        exact later m
      | some e =>
        rw [default] at m
        rcases List.mem_append.1 m with m | m
        · exact ⟨param, List.mem_cons_self, e, default, m⟩
        · cases value : eval setting jumps calls context e with
          | error cause => rw [value] at m; cases m
          | ok value => rw [value] at m; exact later m
    · exact later m

theorem mem_callsOfConditions {call : Call} {arms : List (Expr × List Node)}
    (m : call ∈ callsOfConditions setting jumps calls context arms) :
    ∃ arm ∈ arms, call ∈ callsOf setting jumps calls context arm.1 := by
  induction arms with
  | nil => cases m
  | cons arm arms ih =>
    rcases List.mem_append.1 m with m | m
    · exact ⟨arm, List.mem_cons_self, m⟩
    · cases result : eval setting jumps calls context arm.1 with
      | error cause => rw [result] at m; cases m
      | ok value =>
        rw [result] at m
        change call ∈ (if value.isTruthy then _ else _) at m
        split at m
        · cases m
        · obtain ⟨other, mo, found⟩ := ih m
          exact ⟨other, List.mem_cons_of_mem _ mo, found⟩

variable {definitions : List Definition}

theorem isOf_of_madeIn (knows : context.Knows definitions) {paths : List String} {made : List Call}
    (h : MadeIn calls context paths made) : ∀ call ∈ made, call.IsOf definitions ∧ call.calls = calls := by
  intro call m
  obtain ⟨same, inside, by_, path, -, known⟩ := h call m
  exact ⟨⟨inside ▸ knows, (knows.definition known).1, by rw [by_]; exact nofun⟩, same⟩

theorem isOf_of_callBlock (knows : context.Knows definitions) {params : List Param} {body : List Node}
    (m : ⟨callerName, params, body⟩ ∈ definitions) {call : Expr} :
    ∀ made ∈ callsOfCallBlock setting jumps calls context params body call,
      made.IsOf definitions ∧ made.calls = calls := by
  intro made mm
  cases call with
  | call callee args =>
    rw [callsOfCallBlock] at mm
    cases found : callee.path?.bind context.macro? with
    | none => rw [found] at mm; cases mm
    | some callable =>
      rw [found] at mm
      rcases List.mem_append.1 mm with mm | mm
      · exact isOf_of_madeIn knows (madeIn_callsOfAll args) made mm
      · cases value : evalAll setting jumps calls context args with
        | error cause => rw [value] at mm; cases mm
        | ok values =>
          rw [value] at mm
          obtain ⟨path, -, known⟩ := Option.bind_eq_some_iff.1 found
          rw [List.mem_singleton.1 mm]
          refine ⟨⟨knows, (knows.definition known).1, fun caller same => ?_⟩, rfl⟩
          rw [← Option.some.inj same]
          exact ⟨m, rfl⟩
  | _ => cases mm

end Parts

section Root

variable {root : List Node}

theorem mem_definitionsIn {node : Node} {definition : Definition} (m : node ∈ partsOfAll root)
    (h : node.definition? = some definition) : definition ∈ definitionsIn root :=
  List.mem_filterMap.2 ⟨node, m, h⟩

theorem isOf_of_invocation {setting : Setting} {moment : Moment} (knows : moment.context.Knows (definitionsIn root))
    (m : moment.node ∈ partsOfAll root) : ∀ call ∈ moment.invocations setting,
      call.IsOf (definitionsIn root) ∧ call.calls = moment.place.calls := by
  intro call mc
  obtain ⟨jumps, place, view, node, context⟩ := moment
  cases node with
  | output e | assign name e | loop targets e body otherwise => exact isOf_of_madeIn knows (madeIn_callsOf e) call mc
  | branch arms otherwise =>
    obtain ⟨arm, -, mc⟩ := mem_callsOfConditions mc
    exact isOf_of_madeIn knows (madeIn_callsOf arm.1) call mc
  | callBlock params e body => exact isOf_of_callBlock knows (mem_definitionsIn m rfl) call mc
  | _ => cases mc

/-- Every call of one of the definitions settles, where so many calls are around. -/
def SettlesAt (root : List Node) (jumps : Jumps) (calls : Nat) : Prop :=
  ∀ call : Call, call.IsOf (definitionsIn root) → call.calls = calls → Settled (call.run jumps)

/-- The moments of parts of the template, at one place. -/
structure Moment.IsOf (root : List Node) (jumps : Jumps) (place : Place) (moment : Moment) : Prop where
  jumps : moment.jumps = jumps
  place : moment.place = place
  node : moment.node ∈ partsOfAll root
  knows : moment.context.Knows (definitionsIn root)

variable {setting : Setting} {jumps : Jumps} {place : Place}

theorem maintains_root (root : List Node) (setting : Setting) (jumps : Jumps) (place : Place) :
    Maintains setting jumps place (· ∈ partsOfAll root)
      (fun cause => SettlesAt root jumps place.calls → cause ≠ .unsettled) (·.Knows (definitionsIn root))
      (Moment.IsOf root jumps place) where
  operation _ settled _ := settled
  value context knows e cause failed settles same := by
    refine (dependsOn_eval e).settles (fun call m => ?_) (same ▸ failed)
    obtain ⟨isOf, at_⟩ := isOf_of_madeIn knows (madeIn_callsOf e) call m
    exact settles call isOf at_
  assign context knows name value := by
    rw [Context.assign]
    split
    · exact knows
    · exact knows
  push _ knows _ := knows
  pop _ knows := knows
  moment _ _ _ m knows := ⟨rfl, rfl, m, knows⟩

/-- The moments of a body are of the template, and rendering it settles if the calls do that are made there. -/
theorem runs_root (self : AllSelfContained (partsOfAll root))
    {elsewhere : Place → View → List Node → Context → List Moment} {nodes : List Node}
    (inside : partsOfAll nodes ⊆ partsOfAll root) (view : View) :
    Runs (fun cause => SettlesAt root jumps place.calls → cause ≠ .unsettled) (·.Knows (definitionsIn root))
      (Moment.IsOf root jumps place) (renderNodes setting jumps place nodes)
      (momentsOfAll setting jumps elsewhere place view nodes) := by
  have hm := maintains_root root setting jumps place
  refine hm.runs_momentsOfAll (fun node m reaches view => ?_) view fun part mp => inside mp
  have allowed := self node m
  cases node with
  | define name params body =>
    refine Runs.cons ?_ fun _ => hm.moment m
    refine (Runs.modify fun context knows => ?_).first fun _ => .pure ""
    exact Context.Knows.bindMacro knows (mem_definitionsIn m rfl) rfl
  | callBlock params call body =>
    refine Runs.cons ⟨fun context cause knows failed settles same => ?_, fun context knows => ?_, nofun⟩
      fun _ => hm.moment m
    · rw [renderNode, callWith_apply] at failed
      refine (dependsOn_calledWith params body call).settles (fun made mm => ?_) (same ▸ failed)
      obtain ⟨isOf, at_⟩ := isOf_of_callBlock knows (mem_definitionsIn m rfl) made mm
      exact settles made isOf at_
    · rwa [renderNode, callWith_apply]
  | text | output | branch | loop | assign => cases reaches
  | _ => cases allowed

theorem runs_within (self : AllSelfContained (partsOfAll root)) {nodes : List Node}
    (inside : partsOfAll nodes ⊆ partsOfAll root) (setting : Setting) (n : Nat) (place : Place) :
    Runs (fun cause => SettlesAt root (.within setting n) place.calls → cause ≠ .unsettled)
      (·.Knows (definitionsIn root)) (Moment.IsOf root (.within setting n) place)
      ((Jumps.within setting (n + 1)).body place nodes) (momentsWithin setting (n + 1) place .outermost nodes) :=
  runs_root self inside .outermost

/-- Nothing is called in defaults that are tame. -/
theorem callsOfParams_eq_nil (tame : Node.Tame root) {definition : Definition} (m : definition ∈ definitionsIn root)
    {context : Context} (knows : context.Knows (definitionsIn root)) (calls : Nat) (args : List Value) :
    callsOfParams setting jumps calls context definition.params args = [] := by
  refine List.eq_nil_iff_forall_not_mem.2 fun call mc => ?_
  obtain ⟨param, mp, e, default, mc⟩ := mem_callsOfParams mc
  obtain ⟨-, -, -, path, callee, known⟩ := madeIn_callsOf e call mc
  obtain ⟨md, named⟩ := knows.definition known
  exact tame definition m param mp e default path callee (named ▸ List.mem_map_of_mem md)

/-- With tame defaults, every call settles within the jumps that are left up to the limit. -/
theorem settlesAt_of_tame (self : AllSelfContained (partsOfAll root)) (tame : Node.Tame root) (n : Nat) :
    ∀ {calls : Nat}, maxNesting ≤ n + calls → SettlesAt root (.within setting n) calls := by
  induction n with
  | zero =>
    intro calls deep call isOf same
    rw [Call.run_eq, if_pos (by omega)]
    exact .error nofun
  | succ n ih =>
    intro calls deep call isOf same
    rw [Call.run_eq]
    split
    · exact .error nofun
    · refine Settled.bind ?_ fun bound => ?_
      · refine (dependsOn_bindParams _ call.args []).settles ?_
        rw [callsOfParams_eq_nil tame isOf.definition isOf.knows]
        exact nofun
      · have runs := runs_within self (Node.body_subset_of_mem isOf.definition) setting n ⟨[], 0, call.calls + 1⟩
        exact fun failed => runs.cause (isOf.inside bound) failed (ih (by simp only; omega)) rfl

/-! ### Calls in progress are counted -/

theorem parent?_eq_none_of_isSelfContained (self : AllSelfContained (partsOfAll root)) : parent? root = none :=
  parent?_eq_none_of_notMem fun _ m => by cases self _ m

section Progress

variable {template : Template} {globals : Namespace}
variable (self : AllSelfContained (partsOfAll template.nodes))
include self

theorem Moment.isOf_of_mem {moment : Moment} (m : moment ∈ template.moments setting globals) :
    moment.IsOf template.nodes (.within setting (maxJumps - 1)) ⟨[], 0, 0⟩ := by
  rw [moments_eq (parent?_eq_none_of_isSelfContained self)] at m
  have runs := runs_within self (List.Subset.refl _) setting (maxJumps - 1) ⟨[], 0, 0⟩
  exact runs.moment (knows_ofNamespace _ _) moment m

/-- The count of calls that the renderer keeps is that of the macros whose bodies are in progress, and whatever a call
fails with, the rendering fails with. -/
theorem Comes.invariant {n : Nat} {around : List Phase} {call : Call}
    (h : Comes setting template globals n around call) :
    call.IsOf (definitionsIn template.nodes) ∧ around.count .body = call.calls ∧
      ∀ cause, call.run (.within setting n) = .error cause → template.render setting globals = .error cause := by
  induction h with
  | @outermost n moment call comes left made =>
    have isOf := Moment.isOf_of_mem self comes
    obtain ⟨known, at_⟩ := isOf_of_invocation isOf.knows isOf.node call made
    refine ⟨known, by rw [at_, isOf.place]; rfl, fun cause failed => render_eq_error comes ?_⟩
    exact fails_of_invocation made (left ▸ failed)
  | @inner n around outer call phase comes admitted made ih =>
    obtain ⟨isOf, count, fails⟩ := ih
    have run := outer.run_eq (.within setting (n + 1))
    rw [if_neg (by omega)] at run
    rcases List.mem_append.1 made with made | made
    · obtain ⟨other, mc, same⟩ := List.mem_map.1 made
      cases same
      obtain ⟨-, -, e, -, me⟩ := mem_callsOfParams mc
      obtain ⟨known, at_⟩ := isOf_of_madeIn isOf.knows (madeIn_callsOf e) call me
      refine ⟨known, ?_, fun cause failed => fails cause ?_⟩
      · rw [List.count_cons_of_ne (by decide), count, at_]
      · rw [run, (dependsOn_bindParams _ _ []).fails call mc failed]
        rfl
    · cases bind : bindParams (.within setting (n + 1)) outer.calls outer.context outer.callable.definition.params
          outer.args [] with
      | error cause =>
        rw [bind] at made
        cases made
      | ok bound =>
        rw [bind] at made run
        obtain ⟨other, mc, same⟩ := List.mem_map.1 made
        cases same
        obtain ⟨moment, mm, mc⟩ := List.mem_flatMap.1 mc
        have runs := runs_within self (Node.body_subset_of_mem isOf.definition) setting n ⟨[], 0, outer.calls + 1⟩
        have inside := runs.moment (isOf.inside bound) moment mm
        obtain ⟨known, at_⟩ := isOf_of_invocation inside.knows inside.node call mc
        refine ⟨known, ?_, fun cause failed => fails cause ?_⟩
        · rw [List.count_cons_self, count, at_, inside.place]
        · rw [run]
          have failed := fails_of_invocation mc (inside.jumps ▸ failed)
          exact breaks_momentsOfAll (breaksElsewhere_within setting n) _ _ _ mm failed

/-- With tame defaults, macros are in progress only by their bodies. -/
theorem Comes.forall_body (tame : Node.Tame template.nodes) {n : Nat} {around : List Phase} {call : Call}
    (h : Comes setting template globals n around call) : ∀ phase ∈ around, .body = phase := by
  induction h with
  | outermost => exact nofun
  | @inner n around outer call phase comes admitted made ih =>
    refine List.forall_mem_cons.2 ⟨?_, ih⟩
    obtain ⟨isOf, -, -⟩ := comes.invariant self
    rw [Call.inner, callsOfParams_eq_nil tame isOf.definition isOf.knows] at made
    split at made
    · cases made
    · obtain ⟨other, -, same⟩ := List.mem_map.1 made
      cases same
      rfl

theorem settled_of_tame (tame : Node.Tame template.nodes) (setting : Setting) (globals : Namespace) {n : Nat}
    (enough : maxNesting < n) : Settled (renderWithin setting n template globals) := by
  obtain ⟨k, rfl⟩ : ∃ k, n = k + 1 := ⟨n - 1, by omega⟩
  rw [renderWithin, document_eq (parent?_eq_none_of_isSelfContained self)]
  have runs := runs_within self (List.Subset.refl _) setting k ⟨[], 0, 0⟩
  have settles : SettlesAt template.nodes (.within setting k) 0 := settlesAt_of_tame self tame k (by omega)
  exact fun failed => runs.cause (knows_ofNamespace _ _) failed settles rfl

end Progress

end Root

/-! ### Defaults that call their own macro -/

/-- A macro whose first default calls the macro itself never ends. -/
theorem unsettled_of_default {setting : Setting} {calls : Nat} (admitted : calls < maxNesting) {context : Context}
    {name param : String} {params : List Param} {callable : Callable} (known : context.macro? name = some callable)
    (default : callable.definition.params = ⟨param, some (.call (.var name) [])⟩ :: params) (n : Nat) :
    eval setting (.within setting n) calls context (.call (.var name) []) = .error .unsettled := by
  have value (n : Nat) : eval setting (.within setting n) calls context (.call (.var name) []) =
      (bindParams (.within setting n) calls context callable.definition.params [] [] >>= fun bound =>
        ((Jumps.within setting n).body ⟨[], 0, calls + 1⟩ callable.definition.body
          (Call.inside ⟨callable, [], context, calls, none⟩ bound)).1) >>= fun text => .ok (.string text) := by
    have run := Call.run_eq (.within setting n) ⟨callable, [], context, calls, none⟩
    rw [if_neg (by simp only; omega)] at run
    rw [eval, show (Expr.var name).path?.bind context.macro? = some callable from known, ← run]
    rfl
  induction n with
  | zero =>
    rw [value, default]
    rfl
  | succ n ih =>
    rw [value, default, bindParams]
    -- The default is evaluated one jump further, before the call is counted.
    change ((eval setting (.within setting n) calls context (.call (.var name) []) >>= _) >>= _) >>= _ = _
    rw [ih]
    rfl

theorem renderWithin_eq_unsettled {setting : Setting} {template : Template} (globals : Namespace)
    {name param : String} {params : List Param} {body : List Node}
    (nodes : template.nodes = [.define name (⟨param, some (.call (.var name) [])⟩ :: params) body,
      .output (.call (.var name) [])]) (budget : Nat) :
    renderWithin setting budget template globals = .error .unsettled := by
  let macros := (Context.ofNamespace globals).bindMacro name
    ⟨⟨name, ⟨param, some (.call (.var name) [])⟩ :: params, body⟩, []⟩
  have known : macros.macro? name = some _ := Fields.find?_put_self name _ []
  have admitted : 0 < maxNesting := by decide
  rw [renderWithin, document, layOut.eq_def, nodes]
  cases budget with
  | zero => rfl
  | succ n =>
    let moment : Moment := ⟨.within setting n, ⟨[], 0, 0⟩, .outermost, .output (.call (.var name) []), macros⟩
    refine breaks_momentsOfAll (breaksElsewhere_within setting n) ⟨[], 0, 0⟩ .outermost _
      (List.mem_cons_of_mem _ List.mem_cons_self : moment ∈ _) ?_
    exact read_bind_eq_error rfl (unsettled_of_default admitted known rfl n) _

/-- Rendering a template of texts, outputs, branches, loops, assignments, macros and call blocks. A call is admitted
only while fewer bodies of macros are in progress than may nest, and otherwise the rendering fails for that reason. If
no default calls a macro of the template, then no more macros than that are in progress at all, and rendering settles
with one jump more. A macro whose first default calls the macro itself never ends. -/
theorem calls_of_isSelfContained {template : Template} (self : AllSelfContained (partsOfAll template.nodes))
    (setting : Setting) (globals : Namespace) :
    (∀ n around call, Comes setting template globals n around call →
      (call.calls < maxNesting → around.count .body + 1 ≤ maxNesting) ∧
      (maxNesting ≤ call.calls →
        template.render setting globals = .error (.macroTooDeep call.callable.definition.name))) ∧
    (Node.Tame template.nodes →
      (∀ n around call, Comes setting template globals n around call → call.calls < maxNesting →
        around.length + 1 ≤ maxNesting) ∧
      Settled (template.render setting globals) ∧
      ∀ budget, maxNesting < budget →
        renderWithin setting budget template globals = template.render setting globals) ∧
    ∀ name param params body, template.nodes = [.define name (⟨param, some (.call (.var name) [])⟩ :: params) body,
        .output (.call (.var name) [])] →
      ∀ budget, renderWithin setting budget template globals = .error .unsettled := by
  refine ⟨fun n around call comes => ?_,
    fun tame => ⟨fun n around call comes admitted => ?_, ?_, fun budget enough => ?_⟩,
    fun name param params body nodes => renderWithin_eq_unsettled globals nodes⟩
  · obtain ⟨-, count, fails⟩ := comes.invariant self
    refine ⟨fun admitted => by omega, fun deep => fails _ ?_⟩
    rw [Call.run_eq, if_pos deep]
  · obtain ⟨-, count, -⟩ := comes.invariant self
    rw [List.count_eq_length.2 (comes.forall_body self tame)] at count
    omega
  · exact settled_of_tame self tame setting globals (by decide)
  · have settled := settled_of_tame self tame setting globals (Nat.lt_succ_self maxNesting)
    exact (renderWithin_eq_of_le enough settled).trans (renderWithin_eq_of_le (by decide) settled).symm

/-- A macro that calls itself in its body, as often as its argument says. -/
theorem calls_of_countdown :
    let source := "\x7b% macro f(n) %\x7d\x7b% if n > 0 %\x7d\x7b\x7b f(n - 1) \x7d\x7d\x7b% endif %\x7d" ++
      "\x7b% endmacro %\x7d\x7b\x7b f(99) \x7d\x7d"
    ∃ template, read inlineName source = .ok template ∧ AllSelfContained (partsOfAll template.nodes) ∧
      Node.Tame template.nodes ∧ ∀ budget, maxNesting < budget →
        renderWithin (.alone .english) budget template .empty = .error (.macroTooDeep "f") := by
  intro source
  have shown : (read inlineName source).toOption.map (fun (template : Template) =>
      (decide (AllSelfContained (partsOfAll template.nodes)), decide (Node.Tame template.nodes),
        template.render (.alone .english) .empty)) = some (true, true, .error (.macroTooDeep "f")) := by
    rw [read_eq_readChars (Text.append_eq_ofList rfl rfl)]
    decide +kernel
  cases made : read inlineName source with
  | error cause => rw [made] at shown; cases shown
  | ok template =>
    rw [made] at shown
    simp only [Except.toOption, Option.map_some, Option.some.injEq, Prod.mk.injEq, decide_eq_true_eq] at shown
    obtain ⟨self, tame, text⟩ := shown
    refine ⟨template, rfl, self, tame, fun budget enough => ?_⟩
    rw [((calls_of_isSelfContained self (.alone .english) .empty).2.1 tame).2.2 budget enough, text]

/-! ### Defaults that nest deeper -/

/-- The call that a call comes to so many levels down, along the first one that each makes. -/
def Call.innermost (setting : Setting) : (levels : Nat) → Nat → Call → Option Call
  | 0, _, call => some call
  | levels + 1, n + 1, call =>
    if call.calls < maxNesting then
      (call.inner setting n).head?.bind fun made => innermost setting levels n made.2
    else none
  | _ + 1, 0, _ => none

theorem Comes.innermost {setting : Setting} {template : Template} {globals : Namespace} (levels : Nat) :
    ∀ {n : Nat} {around : List Phase} {call last : Call}, Comes setting template globals n around call →
      call.innermost setting levels n = some last →
        ∃ m more, more.length = around.length + levels ∧ Comes setting template globals m more last := by
  induction levels with
  | zero =>
    intro n around call last comes found
    cases found
    exact ⟨n, around, rfl, comes⟩
  | succ levels ih =>
    intro n around call last comes found
    cases n with
    | zero => cases found
    | succ n =>
      rw [Call.innermost] at found
      split at found
      · rename_i admitted
        obtain ⟨⟨phase, inner⟩, first, found⟩ := Option.bind_eq_some_iff.1 found
        obtain ⟨m, more, length, comes⟩ := ih (.inner comes admitted (List.mem_of_head? first)) found
        exact ⟨m, more, by rw [length, List.length_cons]; omega, comes⟩
      · cases found

theorem comes_of_invocation {setting : Setting} {template : Template} {globals : Namespace}
    (self : AllSelfContained (partsOfAll template.nodes)) {call : Call}
    (m : call ∈ (template.moments setting globals).flatMap (Moment.invocations setting)) :
    Comes setting template globals (maxJumps - 1) [] call := by
  obtain ⟨moment, comes, made⟩ := List.mem_flatMap.1 m
  exact .outermost comes (Moment.isOf_of_mem self comes).jumps made

/-- Sixty-three calls of one macro, a call of another in the body of the last, and in the default of that a call more:
it is admitted, although as many calls are in progress around it as may nest. -/
theorem comes_of_default :
    let source := "\x7b% macro h() %\x7dx\x7b% endmacro %\x7d" ++
      "\x7b% macro g(a=h()) %\x7d\x7b\x7b a \x7d\x7d\x7b% endmacro %\x7d" ++
      "\x7b% macro f(n) %\x7d\x7b% if n > 0 %\x7d\x7b\x7b f(n - 1) \x7d\x7d\x7b% else %\x7d\x7b\x7b g() \x7d\x7d" ++
      "\x7b% endif %\x7d\x7b% endmacro %\x7d\x7b\x7b f(62) \x7d\x7d"
    ∃ template, read inlineName source = .ok template ∧ AllSelfContained (partsOfAll template.nodes) ∧
      (∃ n around call, Comes (.alone .english) template .empty n around call ∧ call.calls < maxNesting ∧
        around.length = maxNesting ∧ call.callable.definition.name = "h") ∧
      template.render (.alone .english) .empty = .ok "x" := by
  intro source
  have shown : (read inlineName source).toOption.bind (fun (template : Template) =>
      (((template.moments (.alone .english) .empty).flatMap (Moment.invocations (.alone .english))).head?.bind fun call =>
        (call.innermost (.alone .english) maxNesting (maxJumps - 1)).map fun last =>
          (decide (AllSelfContained (partsOfAll template.nodes)), last.calls, last.callable.definition.name,
            template.render (.alone .english) .empty))) = some (true, 63, "h", .ok "x") := by
    rw [read_eq_readChars (Text.append_eq_ofList (Text.append_eq_ofList (Text.append_eq_ofList rfl rfl) rfl) rfl)]
    decide +kernel
  cases made : read inlineName source with
  | error cause => rw [made] at shown; cases shown
  | ok template =>
    rw [made] at shown
    obtain ⟨_, ⟨⟩, shown⟩ := Option.bind_eq_some_iff.1 shown
    obtain ⟨call, first, shown⟩ := Option.bind_eq_some_iff.1 shown
    obtain ⟨last, found, shown⟩ := Option.map_eq_some_iff.1 shown
    simp only [Prod.mk.injEq, decide_eq_true_eq] at shown
    obtain ⟨self, calls, name, text⟩ := shown
    obtain ⟨n, around, length, comes⟩ :=
      (comes_of_invocation self (List.mem_of_head? first)).innermost maxNesting found
    refine ⟨template, rfl, self, ⟨n, around, last, comes, by rw [calls]; decide, ?_, name⟩, text⟩
    rw [length, List.length_nil, Nat.zero_add]

end Template

end Folio
