import Folio.Proofs.Template.Run

/-! The macros that expressions and nodes call, each with the arguments and the context that it is called in. What a
call fails with, the expression or the node fails with. -/
namespace Folio

namespace Expr

mutual

/-- The dotted paths of what is called in an expression. -/
def callees : Expr → List String
  | .literal _ | .var _ => []
  | .lookup left right | .and left right | .or left right | .compare _ left right | .binary _ left right =>
    left.callees ++ right.callees
  | .not inner | .isDefined inner | .neg inner => inner.callees
  | .filter _ target args | .test _ target args _ => target.callees ++ calleesOfAll args
  | .call callee args => callee.path?.toList ++ calleesOfAll args
  | .list items => calleesOfAll items
  | .dict entries => calleesOfEntries entries
  | .inlineIf value condition otherwise => value.callees ++ condition.callees ++ calleesOfOption otherwise

def calleesOfAll : List Expr → List String
  | [] => []
  | e :: es => e.callees ++ calleesOfAll es

def calleesOfEntries : List (Expr × Expr) → List String
  | [] => []
  | (key, value) :: entries => key.callees ++ value.callees ++ calleesOfEntries entries

def calleesOfOption : Option Expr → List String
  | none => []
  | some e => e.callees

end

/-- The expression is the one thing to call that is no macro. -/
def isRange : Expr → Bool
  | .var "range" => true
  | _ => false

end Expr

namespace Template

/-- A macro is called. -/
structure Call where
  callable : Callable
  args : List Value
  context : Context
  calls : Nat
  caller : Option Callable

/-- The text of the macro. -/
def Call.run (jumps : Jumps) (call : Call) : Except RenderError String :=
  invoke jumps call.calls call.callable call.args call.context call.caller

/-- What is called after a result, which is nothing if there is none. -/
def callsAfter {α : Type} (result : Except RenderError α) (next : α → List Call) : List Call :=
  match result with
  | .ok value => next value
  | .error _ => []

section Calls

variable (setting : Setting) (jumps : Jumps) (calls : Nat) (context : Context)

mutual

/-- The calls that evaluating an expression makes, in their order. -/
def callsOf : Expr → List Call
  | .literal _ | .var _ => []
  | .lookup left right | .compare _ left right | .binary _ left right =>
    callsOf left ++ callsAfter (eval setting jumps calls context left) fun _ => callsOf right
  | .and left right =>
    callsOf left ++ callsAfter (eval setting jumps calls context left) fun value =>
      if value.isTruthy then callsOf right else []
  | .or left right =>
    callsOf left ++ callsAfter (eval setting jumps calls context left) fun value =>
      if value.isTruthy then [] else callsOf right
  | .not inner | .isDefined inner | .neg inner => callsOf inner
  | .filter _ target args | .test _ target args _ =>
    callsOf target ++ callsAfter (eval setting jumps calls context target) fun _ => callsOfAll args
  | .call callee args =>
    match callee.path?.bind context.macro? with
    | some callable =>
      callsOfAll args ++ callsAfter (evalAll setting jumps calls context args) fun args =>
        [⟨callable, args, context, calls, none⟩]
    | none => if callee.isRange then callsOfAll args else []
  | .list items => callsOfAll items
  | .dict entries => callsOfEntries entries
  | .inlineIf value condition otherwise =>
    callsOf condition ++ callsAfter (eval setting jumps calls context condition) fun holds =>
      if holds.isTruthy then callsOf value else callsOfOption otherwise

def callsOfAll : List Expr → List Call
  | [] => []
  | e :: es => callsOf e ++ callsAfter (eval setting jumps calls context e) fun _ => callsOfAll es

def callsOfEntries : List (Expr × Expr) → List Call
  | [] => []
  | (key, value) :: entries =>
    callsOf key ++ callsAfter (eval setting jumps calls context key) fun _ =>
      callsOf value ++ callsAfter (eval setting jumps calls context value) fun _ => callsOfEntries entries

def callsOfOption : Option Expr → List Call
  | none => []
  | some e => callsOf e

end

/-- The calls in the defaults of the parameters that there is no argument for. -/
def callsOfParams : List Param → List Value → List Call
  | [], _ => []
  | _ :: params, _ :: args => callsOfParams params args
  | param :: params, [] =>
    match param.default with
    | none => callsOfParams params []
    | some e => callsOf setting jumps calls context e ++
      callsAfter (eval setting jumps calls context e) fun _ => callsOfParams params []

/-- The calls in conditions up to the first that holds. -/
def callsOfConditions : List (Expr × List Node) → List Call
  | [] => []
  | (condition, _) :: arms =>
    callsOf setting jumps calls context condition ++
      callsAfter (eval setting jumps calls context condition) fun value =>
        if value.isTruthy then [] else callsOfConditions arms

/-- The text of a call block. -/
def calledWith (params : List Param) (body : List Node) : Expr → Except RenderError String
  | .call callee args =>
    match callee.path?.bind context.macro? with
    | some callable => do
      let args ← evalAll setting jumps calls context args
      invoke jumps calls callable args context (some ⟨⟨callerName, params, body⟩, context.locals⟩)
    | none => .error .callTarget
  | _ => .error .callTarget

/-- The calls in the arguments of a call block, and its own. -/
def callsOfCallBlock (params : List Param) (body : List Node) : Expr → List Call
  | .call callee args =>
    match callee.path?.bind context.macro? with
    | some callable =>
      callsOfAll setting jumps calls context args ++
        callsAfter (evalAll setting jumps calls context args) fun args =>
          [⟨callable, args, context, calls, some ⟨⟨callerName, params, body⟩, context.locals⟩⟩]
    | none => []
  | _ => []

end Calls

/-- The calls that a node makes by itself, apart from those in its bodies. The names of other templates and the
arguments of filters are left out. -/
def Moment.invocations (setting : Setting) (moment : Moment) : List Call :=
  match moment.node with
  | .output e | .assign _ e | .loop _ e _ _ => callsOf setting moment.jumps moment.place.calls moment.context e
  | .branch arms _ => callsOfConditions setting moment.jumps moment.place.calls moment.context arms
  | .callBlock params call body =>
    callsOfCallBlock setting moment.jumps moment.place.calls moment.context params body call
  | _ => []

/-! ### What is called -/

/-- The calls are made in a context, at a depth of calls, of macros that are known there under some of the paths. -/
def MadeIn (calls : Nat) (context : Context) (paths : List String) (made : List Call) : Prop :=
  ∀ call ∈ made, call.calls = calls ∧ call.context = context ∧ call.caller = none ∧
    ∃ path ∈ paths, context.macro? path = some call.callable

namespace MadeIn

variable {calls : Nat} {context : Context} {paths more : List String} {made later : List Call}

theorem none : MadeIn calls context paths [] :=
  nofun

theorem left (h : MadeIn calls context paths made) : MadeIn calls context (paths ++ more) made := by
  intro call m
  obtain ⟨at_, inside, by_, path, mp, known⟩ := h call m
  exact ⟨at_, inside, by_, path, List.mem_append_left _ mp, known⟩

theorem right (h : MadeIn calls context more made) : MadeIn calls context (paths ++ more) made := by
  intro call m
  obtain ⟨at_, inside, by_, path, mp, known⟩ := h call m
  exact ⟨at_, inside, by_, path, List.mem_append_right _ mp, known⟩

theorem append (h : MadeIn calls context paths made) (hl : MadeIn calls context paths later) :
    MadeIn calls context paths (made ++ later) :=
  List.forall_mem_append.2 ⟨h, hl⟩

theorem after {α : Type} {result : Except RenderError α} {next : α → List Call}
    (h : ∀ value, MadeIn calls context paths (next value)) : MadeIn calls context paths (callsAfter result next) := by
  cases result with
  | error cause => exact none
  | ok value => exact h value

end MadeIn

section Known

variable {setting : Setting} {jumps : Jumps} {calls : Nat} {context : Context}

mutual

theorem madeIn_callsOf : ∀ e, MadeIn calls context e.callees (callsOf setting jumps calls context e)
  | .literal _ | .var _ => .none
  | .lookup left right | .compare _ left right | .binary _ left right => by
    rw [callsOf, Expr.callees]
    exact (madeIn_callsOf left).left.append (.after fun _ => (madeIn_callsOf right).right)
  | .and left right | .or left right => by
    rw [callsOf, Expr.callees]
    refine (madeIn_callsOf left).left.append (.after fun value => ?_)
    split
    · first | exact (madeIn_callsOf right).right | exact .none
    · first | exact (madeIn_callsOf right).right | exact .none
  | .not inner | .isDefined inner | .neg inner => by
    rw [callsOf, Expr.callees]
    exact madeIn_callsOf inner
  | .filter _ target args | .test _ target args _ => by
    rw [callsOf, Expr.callees]
    exact (madeIn_callsOf target).left.append (.after fun _ => (madeIn_callsOfAll args).right)
  | .call callee args => by
    rw [callsOf, Expr.callees]
    have all : MadeIn calls context (callee.path?.toList ++ Expr.calleesOfAll args)
        (callsOfAll setting jumps calls context args) := (madeIn_callsOfAll args).right
    cases found : callee.path?.bind context.macro? with
    | none =>
      dsimp only
      split
      · exact all
      · exact .none
    | some callable =>
      obtain ⟨path, named, known⟩ := Option.bind_eq_some_iff.1 found
      refine all.append (.after fun values call m => ?_)
      rw [List.mem_singleton.1 m]
      exact ⟨rfl, rfl, rfl, path, List.mem_append_left _ (by rw [named]; exact List.mem_singleton_self path), known⟩
  | .list items => by
    rw [callsOf, Expr.callees]
    exact madeIn_callsOfAll items
  | .dict entries => by
    rw [callsOf, Expr.callees]
    exact madeIn_callsOfEntries entries
  | .inlineIf value condition otherwise => by
    rw [callsOf, Expr.callees]
    refine (madeIn_callsOf condition).right.left.append (.after fun holds => ?_)
    split
    · exact (madeIn_callsOf value).left.left
    · exact (madeIn_callsOfOption otherwise).right

theorem madeIn_callsOfAll : ∀ es,
    MadeIn calls context (Expr.calleesOfAll es) (callsOfAll setting jumps calls context es)
  | [] => .none
  | e :: es => by
    rw [callsOfAll, Expr.calleesOfAll]
    exact (madeIn_callsOf e).left.append (.after fun _ => (madeIn_callsOfAll es).right)

theorem madeIn_callsOfEntries : ∀ entries,
    MadeIn calls context (Expr.calleesOfEntries entries) (callsOfEntries setting jumps calls context entries)
  | [] => .none
  | (key, value) :: entries => by
    rw [callsOfEntries, Expr.calleesOfEntries]
    exact (madeIn_callsOf key).left.left.append (.after fun _ =>
      (madeIn_callsOf value).right.left.append (.after fun _ => (madeIn_callsOfEntries entries).right))

theorem madeIn_callsOfOption : ∀ e?,
    MadeIn calls context (Expr.calleesOfOption e?) (callsOfOption setting jumps calls context e?)
  | none => .none
  | some e => madeIn_callsOf e

end

end Known

/-! ### Results -/

/-- The result settles if the calls do, and fails with whatever one of them fails with. -/
structure DependsOn {α : Type} (jumps : Jumps) (result : Except RenderError α) (made : List Call) : Prop where
  settles : (∀ call ∈ made, Settled (call.run jumps)) → Settled result
  fails : ∀ call ∈ made, ∀ ⦃cause⦄, call.run jumps = .error cause → result = .error cause

namespace DependsOn

variable {jumps : Jumps} {α β : Type} {result : Except RenderError α} {made : List Call}

theorem none (h : Settled result) : DependsOn jumps result [] :=
  ⟨fun _ => h, nofun⟩

/-- A call by itself. -/
theorem self (call : Call) : DependsOn jumps (call.run jumps) [call] :=
  ⟨fun all => all call (List.mem_singleton_self call), fun _ m _ failed => List.mem_singleton.1 m ▸ failed⟩

theorem bind {f : α → Except RenderError β} {later : α → List Call} (h : DependsOn jumps result made)
    (hf : ∀ value, DependsOn jumps (f value) (later value)) :
    DependsOn jumps (result >>= f) (made ++ callsAfter result later) := by
  cases result with
  | error cause =>
    refine ⟨fun all => .error fun same => ?_, fun call m cause failed => ?_⟩
    · exact h.settles (fun call m => all call (List.mem_append_left _ m)) (congrArg Except.error same)
    · rcases List.mem_append.1 m with m | m
      · exact congrArg (· >>= f) (h.fails call m failed)
      · cases m
  | ok value =>
    refine ⟨fun all => ?_, fun call m cause failed => ?_⟩
    · exact (hf value).settles fun call m => all call (List.mem_append_right _ m)
    rcases List.mem_append.1 m with m | m
    · exact congrArg (· >>= f) (h.fails call m failed)
    · exact (hf value).fails call m failed

/-- What the first result calls, if nothing is called after it. -/
theorem first (h : DependsOn jumps result made) {f : α → Except RenderError β} (hf : ∀ value, Settled (f value)) :
    DependsOn jumps (result >>= f) made :=
  ⟨fun all => (h.settles all).bind hf, fun call m _ failed => congrArg (· >>= f) (h.fails call m failed)⟩

end DependsOn

theorem callFunction_eq (callee : Expr) (args : Except RenderError (List Value)) :
    callFunction callee args = if callee.isRange then args.bind Value.range else .error .notCallable := by
  rw [callFunction.eq_def]
  split
  · rfl
  · rename_i other
    rw [Expr.isRange.eq_def]
    split
    · exact absurd rfl other
    · rfl

section Results

variable {setting : Setting} {jumps : Jumps} {calls : Nat} {context : Context}

mutual

theorem dependsOn_eval : ∀ e,
    DependsOn jumps (eval setting jumps calls context e) (callsOf setting jumps calls context e)
  | .literal _ | .var _ => .none (.ok _)
  | .lookup left right => by
    rw [eval, callsOf]
    exact (dependsOn_eval left).bind fun _ => (dependsOn_eval right).first fun _ => .ok _
  | .compare op left right => by
    rw [eval, callsOf]
    exact (dependsOn_eval left).bind fun a => (dependsOn_eval right).first fun b =>
      (settled_of_operational (operational_comparison op a b)).bind fun _ => .ok _
  | .binary op left right => by
    rw [eval, callsOf]
    exact (dependsOn_eval left).bind fun a => (dependsOn_eval right).first fun b =>
      settled_of_operational (operational_operator op a b)
  | .and left right | .or left right => by
    rw [eval, callsOf]
    refine (dependsOn_eval left).bind fun value => ?_
    split
    · first | exact dependsOn_eval right | exact .none (.ok _)
    · first | exact dependsOn_eval right | exact .none (.ok _)
  | .not inner | .isDefined inner => by
    rw [eval, callsOf]
    exact (dependsOn_eval inner).first fun _ => .ok _
  | .neg inner => by
    rw [eval, callsOf]
    exact (dependsOn_eval inner).first fun value => settled_of_operational (operational_negate value)
  | .filter name target args => by
    rw [eval, callsOf]
    exact (dependsOn_eval target).bind fun value => (dependsOn_evalAll args).first fun args =>
      settled_of_operational (operational_filter value args name setting.locale)
  | .test name target args negated => by
    rw [eval, callsOf]
    exact (dependsOn_eval target).bind fun value => (dependsOn_evalAll args).first fun args =>
      (settled_test value args name).bind fun _ => .ok _
  | .call callee args => by
    rw [eval, callsOf]
    cases callee.path?.bind context.macro? with
    | some callable =>
      refine (dependsOn_evalAll args).bind fun args => ?_
      exact (DependsOn.self ⟨callable, args, context, calls, none⟩).first fun _ => .ok _
    | none =>
      dsimp only
      rw [callFunction_eq]
      split
      · exact (dependsOn_evalAll args).first fun args => settled_of_operational (operational_range args)
      · exact .none (.error nofun)
  | .list items => by
    rw [eval, callsOf]
    exact (dependsOn_evalAll items).first fun _ => .ok _
  | .dict entries => by
    rw [eval, callsOf]
    exact (dependsOn_evalEntries entries).first fun _ => .ok _
  | .inlineIf value condition otherwise => by
    rw [eval, callsOf]
    refine (dependsOn_eval condition).bind fun holds => ?_
    split
    · exact dependsOn_eval value
    · exact dependsOn_evalOption otherwise

theorem dependsOn_evalAll : ∀ es,
    DependsOn jumps (evalAll setting jumps calls context es) (callsOfAll setting jumps calls context es)
  | [] => .none (.ok _)
  | e :: es => by
    rw [evalAll, callsOfAll]
    exact (dependsOn_eval e).bind fun _ => (dependsOn_evalAll es).first fun _ => .ok _

theorem dependsOn_evalEntries : ∀ entries, DependsOn jumps (evalEntries setting jumps calls context entries)
    (callsOfEntries setting jumps calls context entries)
  | [] => .none (.ok _)
  | (key, value) :: entries => by
    rw [evalEntries, callsOfEntries]
    exact (dependsOn_eval key).bind fun _ => (dependsOn_eval value).bind fun _ =>
      (dependsOn_evalEntries entries).first fun _ => .ok _

theorem dependsOn_evalOption : ∀ e?,
    DependsOn jumps (evalOption setting jumps calls context e?) (callsOfOption setting jumps calls context e?)
  | none => .none (.ok _)
  | some e => dependsOn_eval e

end

/-- The defaults of parameters are evaluated one jump away. -/
theorem dependsOn_bindParams {n : Nat} (params : List Param) : ∀ (args : List Value) (bound : Scope),
    DependsOn (.within setting n) (bindParams (.within setting (n + 1)) calls context params args bound)
      (callsOfParams setting (.within setting n) calls context params args) := by
  induction params with
  | nil => exact fun _ _ => .none (.ok _)
  | cons param params ih =>
    rintro (_ | ⟨arg, args⟩) bound
    · rw [bindParams, callsOfParams]
      cases param.default with
      | none => exact ih [] _
      | some e => exact (dependsOn_eval e).bind fun value => ih [] _
    · rw [bindParams, callsOfParams]
      exact ih args _

theorem dependsOn_calledWith (params : List Param) (body : List Node) (call : Expr) :
    DependsOn jumps (calledWith setting jumps calls context params body call)
      (callsOfCallBlock setting jumps calls context params body call) := by
  cases call with
  | call callee args =>
    rw [callsOfCallBlock, calledWith]
    cases callee.path?.bind context.macro? with
    | none => exact .none (.error nofun)
    | some callable =>
      refine (dependsOn_evalAll args).bind fun args => ?_
      exact .self ⟨callable, args, context, calls, some ⟨⟨callerName, params, body⟩, context.locals⟩⟩
  | _ => exact .none (.error nofun)

/-- A call block leaves the context alone. -/
theorem callWith_apply (place : Place) (params : List Param) (body : List Node) (call : Expr) :
    callWith setting jumps place params body call context =
      (calledWith setting jumps place.calls context params body call, context) := by
  cases call with
  | call callee args =>
    have step : callWith setting jumps place params body (.call callee args) context =
        (match callee.path?.bind context.macro? with
        | some callable => do
          let args ← evaluateAll setting jumps place args
          invoke jumps place.calls callable args context (some ⟨⟨callerName, params, body⟩, context.locals⟩)
        | none => throw .callTarget : Rendering String) context := rfl
    have run (next : List Value → Rendering String) : (evaluateAll setting jumps place args >>= next) context =
        ExceptT.bindCont next (evalAll setting jumps place.calls context args) context := rfl
    rw [step, calledWith]
    cases callee.path?.bind context.macro? with
    | none => rfl
    | some callable =>
      simp only [run]
      cases evalAll setting jumps place.calls context args with
      | error cause => rfl
      | ok args => exact lift_apply _ context
  | _ => rfl

/-- An action that reads the context for its result fails as a whole if that fails. -/
theorem read_bind_eq_error {α β : Type} {action : Rendering α} {result : Except RenderError α}
    (reads : action context = (result, context)) {cause : RenderError} (failed : result = .error cause)
    (next : α → Rendering β) : ((action >>= next) context).1 = .error cause := by
  change (ExceptT.bindCont next (action context).1 (action context).2).1 = _
  rw [reads, failed]
  rfl

theorem renderArms_eq_error {place : Place} (otherwise : Rendering String) {call : Call} {cause : RenderError}
    (failed : call.run jumps = .error cause) : ∀ {arms},
    call ∈ callsOfConditions setting jumps place.calls context arms →
      (renderArms setting jumps place arms otherwise context).1 = .error cause
  | [], m => by cases m
  | (condition, body) :: arms, m => by
    have reads : evaluate setting jumps place condition context =
        (eval setting jumps place.calls context condition, context) := rfl
    rcases List.mem_append.1 m with m | m
    · exact read_bind_eq_error reads ((dependsOn_eval condition).fails call m failed) _
    · cases result : eval setting jumps place.calls context condition with
      | error other => rw [result] at m; cases m
      | ok value =>
        rw [result] at m
        rw [renderArms, evaluate_bind result]
        change call ∈ (if value.isTruthy then _ else _) at m
        split at m
        · cases m
        · rename_i fails
          rw [if_neg fails]
          exact renderArms_eq_error otherwise failed m

end Results

/-- The node fails with whatever one of its calls fails with. -/
theorem fails_of_invocation {setting : Setting} {moment : Moment} {call : Call} {cause : RenderError}
    (m : call ∈ moment.invocations setting) (failed : call.run moment.jumps = .error cause) :
    moment.Fails setting cause := by
  obtain ⟨jumps, place, view, node, context⟩ := moment
  have reads (e : Expr) : evaluate setting jumps place e context =
      (eval setting jumps place.calls context e, context) := rfl
  have value {e : Expr} (m : call ∈ callsOf setting jumps place.calls context e) :=
    read_bind_eq_error (β := String) (reads e) ((dependsOn_eval e).fails call m failed)
  cases node with
  | output e | assign name e | loop targets e body otherwise => exact value m _
  | branch arms otherwise => exact renderArms_eq_error _ failed m
  | callBlock params call body =>
    rw [Moment.Fails, renderNode, callWith_apply]
    exact (dependsOn_calledWith params body call).fails _ m failed
  | _ => cases m

/-! ### Contexts without macros -/

/-- No macro is known. -/
def Context.Bare (context : Context) : Prop :=
  context.macros = []

section Bare

variable {setting : Setting} {jumps : Jumps} {calls : Nat} {context : Context} (bare : context.Bare)
include bare

theorem Context.Bare.macro?_eq_none (name : String) : context.macro? name = none := by
  rw [Context.macro?, show context.macros = [] from bare]
  rfl

theorem Context.Bare.settled_eval (e : Expr) : Settled (eval setting jumps calls context e) := by
  refine (dependsOn_eval e).settles fun call m => ?_
  obtain ⟨-, -, -, path, -, known⟩ := madeIn_callsOf e call m
  rw [bare.macro?_eq_none] at known
  cases known

theorem Context.Bare.eval_eq (a b : Jumps) (e : Expr) :
    eval setting a calls context e = eval setting b calls context e := by
  have least (jumps : Jumps) : (Jumps.within setting 0).Approximate jumps :=
    ⟨fun _ _ _ => .inl rfl, fun _ _ _ => .inl rfl⟩
  rw [(approximates_eval (least a) calls context e).eq_of_settled (bare.settled_eval e),
    (approximates_eval (least b) calls context e).eq_of_settled (bare.settled_eval e)]

end Bare

end Template

end Folio
