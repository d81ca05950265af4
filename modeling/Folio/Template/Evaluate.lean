import Folio.Template.Arithmetic
import Folio.Template.Basic
import Folio.Template.Context
import Folio.Template.Filter

/-! The values of expressions in a context. What an expression reaches beyond its own syntax, the
bodies of macros and the defaults of their parameters, is left to `Jumps`. -/
namespace Folio.Template

/-- The templates that can be reached by name, and the locale of dates. -/
structure Setting where
  template? : String → Except RenderError (Option Template)
  locale : Locale

/-- The bodies of blocks by name. The first body of a name counts. -/
abbrev Overrides := List (String × List Node)

/-- Where rendering stands: the bodies that replace those of blocks, the depth of inclusions and
parents, and the number of macro calls around. -/
structure Place where
  overrides : Overrides
  depth : Nat
  calls : Nat

/-- How rendering goes on outside the syntax at hand. -/
structure Jumps where
  /-- The value of the default of a parameter. -/
  value : (calls : Nat) → Context → Expr → Except RenderError Value
  /-- The text of a body that stands elsewhere. -/
  body : Place → List Node → Rendering String

variable (setting : Setting) (jumps : Jumps) (calls : Nat)

/-- Binds arguments to parameters by position. A parameter without an argument has its default, which
is evaluated where the call stands, or is undefined. -/
def bindParams (context : Context) : List Param → List Value → Scope → Except RenderError Scope
  | [], _, bound => .ok bound
  | param :: params, arg :: args, bound =>
    bindParams context params args (Fields.put param.name arg bound)
  | param :: params, [], bound => do
    let value ← param.default.elim (.ok .undefined) (jumps.value calls context)
    bindParams context params [] (Fields.put param.name value bound)

/-- The text of a macro's body with the arguments bound. The body sees the parameters, what the macro
captured and the macros known where it is called. -/
def invoke (callable : Callable) (args : List Value) (context : Context)
    (caller : Option Callable) : Except RenderError String := do
  if maxNesting ≤ calls then throw (.macroTooDeep callable.definition.name)
  let bound ← bindParams jumps calls context callable.definition.params args []
  let inside : Context := { context with scopes := [bound, callable.captured] }
  let inside := caller.elim inside (inside.bindMacro callerName)
  (jumps.body ⟨[], 0, calls + 1⟩ callable.definition.body inside).1

/-- Calls what is no macro: only `range` can be called. -/
def callFunction (callee : Expr) (args : Except RenderError (List Value)) :
    Except RenderError Value :=
  match callee with
  | .var "range" => args.bind Value.range
  | _ => .error .notCallable

mutual

def eval (context : Context) : Expr → Except RenderError Value
  | .literal value => .ok value
  | .var name => .ok (context.lookup name)
  | .lookup base key => do
    let base ← eval context base
    let key ← eval context key
    return (base.segment? key.text).getD .undefined
  | .and left right => do
    let value ← eval context left
    if value.isTruthy then eval context right else return value
  | .or left right => do
    let value ← eval context left
    if value.isTruthy then return value else eval context right
  | .not inner => do return .bool !(← eval context inner).isTruthy
  | .isDefined target => do return .bool !(← eval context target).isUndefined
  | .filter name target args => do
    let value ← eval context target
    value.filter name (← evalAll context args) setting.locale
  | .compare op left right => do
    let left ← eval context left
    let right ← eval context right
    return .bool (← op.apply left right)
  | .binary op left right => do
    let left ← eval context left
    let right ← eval context right
    op.apply left right
  | .neg inner => do (← eval context inner).negate
  | .call callee args =>
    match callee.path?.bind context.macro? with
    | some callable => do
      let args ← evalAll context args
      return .string (← invoke jumps calls callable args context none)
    | none => callFunction callee (evalAll context args)
  | .test name target args negated => do
    let value ← eval context target
    return .bool ((← value.test name (← evalAll context args)) != negated)
  | .list items => do return .seq (← evalAll context items)
  | .dict entries => do return .map (Fields.ofList (← evalEntries context entries))
  | .inlineIf value condition otherwise => do
    if (← eval context condition).isTruthy then eval context value
    else evalOption context otherwise

def evalAll (context : Context) : List Expr → Except RenderError (List Value)
  | [] => .ok []
  | e :: rest => do
    let value ← eval context e
    return value :: (← evalAll context rest)

def evalEntries (context : Context) : List (Expr × Expr) → Except RenderError (List (String × Value))
  | [] => .ok []
  | (key, value) :: rest => do
    let key ← eval context key
    let value ← eval context value
    return (key.text, value) :: (← evalEntries context rest)

def evalOption (context : Context) : Option Expr → Except RenderError Value
  | none => .ok .undefined
  | some e => eval context e

end

end Folio.Template
