import Folio.Namespace
import Folio.Template.RenderError

/-! What a template can see while it is rendered: variables in nested scopes over the namespace, and
macros. -/
namespace Folio.Template

/-- A macro, or the body of a call block. -/
structure Definition where
  name : String
  params : List Param
  body : List Node

/-- A definition with the variables that were visible where it was bound. -/
structure Callable where
  definition : Definition
  captured : List (String × Value)

/-- Variables by name, in ascending order of the names. -/
abbrev Scope := List (String × Value)

/-- The scopes start with the innermost. Macros are kept under the names that they are called by, such as
`field` or `forms.field`. -/
structure Context where
  globals : Namespace
  scopes : List Scope
  macros : List (String × Callable)

namespace Context

def ofNamespace (globals : Namespace) : Context :=
  ⟨globals, [[]], []⟩

/-- The variables of all scopes, where inner ones hide outer ones. -/
def locals (context : Context) : Scope :=
  context.scopes.foldr (fun scope visible => Fields.putAll visible scope) []

/-- The value of a variable. One that is bound nowhere is undefined. -/
def lookup (context : Context) (name : String) : Value :=
  ((context.scopes.findSome? (Fields.find? name)).or (context.globals.get? name)).getD .undefined

/-- Binds a variable in the innermost scope. -/
def assign (context : Context) (name : String) (value : Value) : Context :=
  match context.scopes with
  | [] => context
  | scope :: outer => { context with scopes := Fields.put name value scope :: outer }

def push (context : Context) (scope : Scope) : Context :=
  { context with scopes := scope :: context.scopes }

def pop (context : Context) : Context :=
  { context with scopes := context.scopes.tail }

def bindMacro (context : Context) (name : String) (callable : Callable) : Context :=
  { context with macros := Fields.put name callable context.macros }

def macro? (context : Context) (name : String) : Option Callable :=
  Fields.find? name context.macros

end Context

/-- A computation that reads and changes the context. The context it leaves is known also when it
fails. -/
abbrev Rendering := ExceptT RenderError (StateM Context)

namespace Rendering

/-- Runs a computation in a scope of its own, which is closed whether or not it succeeds. -/
def inScope {α : Type} (scope : Scope) (action : Rendering α) : Rendering α := do
  modify (·.push scope)
  fun context => match action context with
    | (result, after) => (result, after.pop)

/-- Runs a computation in a context of its own and keeps the context that is there. -/
def isolated {α : Type} (inside : Context) (action : Rendering α) : Rendering α :=
  fun context => ((action inside).1, context)

end Rendering

end Folio.Template
