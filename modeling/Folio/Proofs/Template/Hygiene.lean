import Folio.Proofs.Template.Lockstep

/-! Macros see no variables of those who call them. With an argument for every parameter, the text of a macro depends on
the globals, the macros that are known and the number of calls around, but not on the local variables of the place, nor
on its blocks and inclusions; and a call changes nothing there. -/
namespace Folio.Template

open Node (partsOfAll)

namespace Terms

/-- Terms on which everything may be rendered. -/
def free (first second : RenderError → Prop) (knows : String → Callable → Prop) (opens : Scope → Prop) : Terms where
  first := first
  second := second
  common _ := True
  admits _ := True
  knows := knows
  opens := opens

section Free

variable {first second : RenderError → Prop} {knows : String → Callable → Prop} {opens : Scope → Prop}

theorem covers_free (setting : Setting) (plain : ∀ name definition, knows name ⟨definition, []⟩)
    (caller : ∀ definition ⦃captured⦄, opens captured → knows callerName ⟨definition, captured⟩)
    (captured : ∀ ⦃name callable⦄, knows name callable → opens callable.captured) (bindable : Bindable opens) :
    (free first second knows opens).Covers setting where
  common _ _ := trivial
  overflow _ _ _ := trivial
  children _ _ _ _ := trivial
  template _ _ _ _ _ _ _ := trivial
  found _ _ _ := trivial
  plain := plain
  caller := caller
  captured := captured
  bindable := bindable

theorem admitsDefinition_free (definition : Definition) :
    (free first second knows opens).AdmitsDefinition definition :=
  ⟨fun _ _ _ _ => trivial, fun _ _ _ _ => trivial⟩

/-- Whatever is rendered twice at one place comes to the same from contexts that are alike. -/
theorem follows_free {setting : Setting} (covers : (free first second knows opens).Covers setting) (n : Nat)
    (place : Place) (nodes : List Node) : (free first second knows opens).Follows 0
      (renderNodes setting (.within setting n) place nodes) (renderNodes setting (.within setting n) place nodes) := by
  have blocks : (free first second knows opens).SameBlocks place place := ⟨rfl, fun _ _ _ _ _ _ => trivial⟩
  exact follows_renderNodes covers (covers.keep_within n (.inl rfl)) ⟨.inl rfl, .inl rfl⟩
    (blocks.admitsAt fun _ _ _ _ => trivial)

end Free

/-- Terms that ask nothing of contexts, on which some failures end the comparison. -/
def ending (first second : RenderError → Prop) : Terms :=
  free first second (fun _ _ => True) (fun _ => True)

theorem covers_ending (first second : RenderError → Prop) (setting : Setting) : (ending first second).Covers setting :=
  covers_free setting (fun _ _ => trivial) (fun _ _ _ => trivial) (fun _ _ _ => trivial)
    ⟨trivial, fun _ _ _ _ => trivial⟩

end Terms

/-! ### What contexts are like -/

/-- A context that rendering can come to. The names in a scope ascend; and apart from the body of a call block, the
macros that are known have captured no variables. -/
structure Context.Proper (context : Context) : Prop where
  nonempty : context.scopes ≠ []
  sorted : ∀ scope ∈ context.scopes, Fields.Sorted scope
  captured : ∀ ⦃name callable⦄, context.macro? name = some callable →
    Fields.Sorted callable.captured ∧ (name = callerName ∨ callable.captured = [])

theorem proper_ofNamespace (globals : Namespace) : (Context.ofNamespace globals).Proper :=
  ⟨List.cons_ne_nil _ _, fun _ m => List.mem_singleton.1 m ▸ .nil, nofun⟩

namespace Context.Proper

variable {context : Context} (h : context.Proper)
include h

theorem bindMacro {name : String} {callable : Callable} (sorted : Fields.Sorted callable.captured)
    (captured : name = callerName ∨ callable.captured = []) : (context.bindMacro name callable).Proper := by
  refine ⟨h.nonempty, h.sorted, fun other found known => ?_⟩
  rw [Context.macro?, Context.bindMacro, Fields.find?_put] at known
  split at known
  · rename_i named
    cases known
    exact ⟨sorted, named ▸ captured⟩
  · exact h.captured known

theorem assign (name : String) (value : Value) : (context.assign name value).Proper := by
  obtain ⟨inner, outer, scopes⟩ := List.exists_cons_of_ne_nil h.nonempty
  have sorted := h.sorted
  rw [scopes, List.forall_mem_cons] at sorted
  rw [Context.assign, scopes]
  exact ⟨List.cons_ne_nil _ _, List.forall_mem_cons.2 ⟨Fields.sorted_put sorted.1 name value, sorted.2⟩, h.captured⟩

theorem push {scope : Scope} (sorted : Fields.Sorted scope) : (context.push scope).Proper :=
  ⟨List.cons_ne_nil _ _, List.forall_mem_cons.2 ⟨sorted, h.sorted⟩, h.captured⟩

end Context.Proper

theorem bindable_sorted : Bindable Fields.Sorted :=
  ⟨.nil, fun _ => Fields.sorted_put⟩

/-- Terms on which macros capture only what they may. -/
def Terms.proper : Terms :=
  .free (fun _ => False) (fun _ => False)
    (fun name callable => Fields.Sorted callable.captured ∧ (name = callerName ∨ callable.captured = [])) Fields.Sorted

theorem Terms.covers_proper (setting : Setting) : Terms.proper.Covers setting :=
  Terms.covers_free setting (fun _ _ => ⟨.nil, .inr rfl⟩) (fun _ _ sorted => ⟨sorted, .inl rfl⟩)
    (fun _ _ knows => knows.1) bindable_sorted

/-- Rendering leaves contexts that are as they should be. Macro tags and imports capture nothing. -/
theorem proper_renderNodes (setting : Setting) (n : Nat) (place : Place) (nodes : List Node) {context : Context}
    (h : context.Proper) : (renderNodes setting (.within setting n) place nodes context).2.Proper := by
  -- The rendering beside itself, on terms that say what contexts are like.
  have covers := Terms.covers_proper setting
  have alike : Terms.proper.Alike 0 context context := by
    refine ⟨⟨fun _ => rfl, fun _ => .inl rfl, fun _ _ known => ⟨h.captured known, Terms.admitsDefinition_free _⟩⟩, ?_⟩
    have sorted := h.sorted
    cases scopes : context.scopes with
    | nil => exact absurd scopes h.nonempty
    | cons scope outer =>
      rw [scopes, List.forall_mem_cons] at sorted
      exact .same sorted.1 sorted.2
  rcases Terms.follows_free covers n place nodes alike with (⟨_, never, _⟩ | ⟨_, never, _⟩) | ⟨-, after⟩
  · exact never.elim
  · exact never.elim
  · exact ⟨after.scopes.nonempty, after.scopes.opened, fun name callable known => (after.known known).1⟩

/-- A call fails, or its text is what the body of the macro comes to in a context that is as it should be. -/
theorem invoke_error_or_body {context : Context} (h : context.Proper) {name : String} {callable : Callable}
    (known : context.macro? name = some callable) {caller : Option Callable}
    (sorted : ∀ body ∈ caller, Fields.Sorted body.captured) (jumps : Jumps) (calls : Nat) (args : List Value) :
    (∃ cause, invoke jumps calls callable args context caller = .error cause) ∨
      ∃ inside : Context, inside.Proper ∧ invoke jumps calls callable args context caller =
        (jumps.body ⟨[], 0, calls + 1⟩ callable.definition.body inside).1 := by
  rw [invoke]
  by_cases deep : maxNesting ≤ calls
  · exact .inl ⟨_, if_pos deep⟩
  rw [if_neg deep]
  cases arguments : bindParams jumps calls context callable.definition.params args [] with
  | error cause => exact .inl ⟨cause, rfl⟩
  | ok bound =>
    have scopes : ∀ scope ∈ [bound, callable.captured], Fields.Sorted scope := by
      simp only [List.forall_mem_cons]
      exact ⟨bindable_sorted.bindParams .nil arguments, (h.captured known).1, nofun⟩
    have inside : Context.Proper { context with scopes := [bound, callable.captured] } :=
      ⟨List.cons_ne_nil _ _, scopes, h.captured⟩
    cases caller with
    | none => exact .inr ⟨_, inside, rfl⟩
    | some body => exact .inr ⟨_, inside.bindMacro (sorted body rfl) (.inl rfl), rfl⟩

/-! ### Arguments for every parameter -/

/-- With an argument for every parameter no default is evaluated. -/
theorem bindParams_eq_of_enough {params : List Param} : ∀ {args : List Value}, params.length ≤ args.length →
    ∀ (jumps jumps' : Jumps) (calls calls' : Nat) (context context' : Context) (bound : Scope),
      bindParams jumps calls context params args bound = bindParams jumps' calls' context' params args bound := by
  induction params with
  | nil => exact fun _ _ _ _ _ _ _ _ => rfl
  | cons param params ih =>
    rintro (_ | ⟨arg, args⟩) enough
    · simp at enough
    · intro jumps jumps' calls calls' context context' bound
      rw [bindParams, bindParams]
      exact ih (by simpa using enough) jumps jumps' calls calls' context context' _

section Calls

variable (setting : Setting) (n calls : Nat) {context context' : Context} {callable : Callable} {values : List Value}

/-- The text of a call depends on the globals and the macros that are known, if there are arguments for all
parameters. -/
theorem agree_invoke_of_enough {first second : RenderError → Prop}
    (akin : (Terms.ending first second).Akin context context')
    (enough : callable.definition.params.length ≤ values.length) (caller : Option Callable) :
    (Terms.ending first second).Agree (invoke (.within setting n) calls callable values context caller)
      (invoke (.within setting n) calls callable values context' caller) := by
  have covers := Terms.covers_ending first second setting
  have bound := bindParams_eq_of_enough enough (.within setting n) (.within setting n) calls calls context context' []
  apply Terms.agree_invoke covers (covers.keep_within n (.inl rfl)) (.inl rfl) akin
  · exact Terms.admitsDefinition_free _
  · exact trivial
  · rw [bound]
    exact .self fun _ _ => trivial
  · exact fun body _ => ⟨trivial, Terms.admitsDefinition_free body.definition⟩

theorem invoke_eq_of_enough (globals : ∀ name, context.globals.get? name = context'.globals.get? name)
    (macros : ∀ name, context.macro? name = context'.macro? name)
    (enough : callable.definition.params.length ≤ values.length) (caller : Option Callable) :
    invoke (.within setting n) calls callable values context caller =
      invoke (.within setting n) calls callable values context' caller := by
  have akin : (Terms.ending (fun _ => False) fun _ => False).Akin context context' :=
    ⟨fun name => congrArg (·.getD .undefined) (globals name), fun name => .inl (macros name),
      fun _ callable _ => ⟨trivial, Terms.admitsDefinition_free callable.definition⟩⟩
  exact (agree_invoke_of_enough setting n calls akin enough caller).eq (fun _ _ => id) fun _ _ => id

end Calls

/-- An output leaves the context alone. -/
theorem renderNode_output (setting : Setting) (jumps : Jumps) (place : Place) (e : Expr) (context : Context) :
    renderNode setting jumps place (.output e) context =
      ((eval setting jumps place.calls context e).map Value.text, context) := by
  change ExceptT.bindCont (fun value => pure value.text : Value → Rendering String)
    (eval setting jumps place.calls context e) context = _
  cases eval setting jumps place.calls context e with
  | error cause => rfl
  | ok value => rfl

/-- A call gives the same text in any two contexts with the same globals and macros, whatever their local variables, if
its arguments have the same values and there are as many as parameters. Neither an output nor a call block changes the
context. -/
theorem call_hygienic (setting : Setting) (n : Nat) {place place' : Place} (calls : place.calls = place'.calls)
    {context context' : Context} (globals : ∀ name, context.globals.get? name = context'.globals.get? name)
    (macros : ∀ name, context.macro? name = context'.macro? name) {callee : Expr} {callable : Callable}
    (known : callee.path?.bind context.macro? = some callable) {args args' : List Expr} {values : List Value}
    (ha : evalAll setting (.within setting n) place.calls context args = .ok values)
    (ha' : evalAll setting (.within setting n) place'.calls context' args' = .ok values)
    (enough : callable.definition.params.length ≤ values.length) :
    (∀ caller, invoke (.within setting n) place.calls callable values context caller =
      invoke (.within setting n) place'.calls callable values context' caller) ∧
    eval setting (.within setting n) place.calls context (.call callee args) =
      eval setting (.within setting n) place'.calls context' (.call callee args') ∧
    (renderNode setting (.within setting n) place (.output (.call callee args)) context).1 =
      (renderNode setting (.within setting n) place' (.output (.call callee args')) context').1 ∧
    (∀ e, (renderNode setting (.within setting n) place (.output e) context).2 = context) ∧
    ∀ params body e, (renderNode setting (.within setting n) place (.callBlock params e body) context).2 = context := by
  have same (caller : Option Callable) := invoke_eq_of_enough setting n place.calls globals macros enough caller
  have known' : callee.path?.bind context'.macro? = some callable := by
    rw [← known]
    exact congrArg (callee.path?.bind ·) (funext fun name => (macros name).symm)
  have value : eval setting (.within setting n) place.calls context (.call callee args) =
      eval setting (.within setting n) place'.calls context' (.call callee args') := by
    rw [← calls] at ha' ⊢
    rw [eval, eval, known, known', ha, ha']
    exact congrArg (· >>= fun text => Except.ok (Value.string text)) (same none)
  refine ⟨fun caller => calls ▸ same caller, value, ?_, fun e => ?_, fun params body e => ?_⟩
  · rw [renderNode_output, renderNode_output, value]
  · rw [renderNode_output]
  · rw [renderNode, callWith_apply]

/-- A macro that shows its parameter and a variable of its own name shows no variable of the place that calls it. -/
theorem call_hygienic_of_shadowed :
    let callable : Callable := ⟨⟨"m", [⟨"x", none⟩], [.output (.var "x"), .output (.var "y")]⟩, []⟩
    let context := (Context.ofNamespace .empty).bindMacro "m" callable
    let call : Node := .output (.call (.var "m") [.literal (.int 7)])
    (renderNode (.alone .english) (.within (.alone .english) 2) ⟨[], 0, 0⟩ call (context.assign "y" (.int 1))).1 =
      .ok "7" ∧
    (renderNode (.alone .english) (.within (.alone .english) 2) ⟨[], 0, 0⟩ call context).1 = .ok "7" := by
  intro callable context call
  have calls : (Place.mk [] 0 0).calls = (Place.mk [] 0 0).calls := rfl
  have globals (name : String) : (context.assign "y" (.int 1)).globals.get? name = context.globals.get? name := rfl
  have macros (name : String) : (context.assign "y" (.int 1)).macro? name = context.macro? name := rfl
  have known : (Expr.var "m").path?.bind (context.assign "y" (.int 1)).macro? = some callable := rfl
  have value (context : Context) : evalAll (.alone .english) (.within (.alone .english) 2) 0 context
      [.literal (.int 7)] = .ok [.int 7] := rfl
  have same := call_hygienic (.alone .english) 2 calls globals macros known (value _) (value _) (Nat.le_refl 1)
  have shown : (renderNode (.alone .english) (.within (.alone .english) 2) ⟨[], 0, 0⟩ call context).1 = .ok "7" := by
    rfl
  exact ⟨same.2.2.1.trans shown, shown⟩

end Folio.Template
