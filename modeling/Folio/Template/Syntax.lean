import Folio.Value.Basic

/-! The syntax of templates: expressions, and nodes of text and tags. An expression that is a chain of
lookups names a dotted path; a node declares names to those that follow it and binds names in its
bodies. -/
namespace Folio

inductive Comparison where
  | eq
  | ne
  | lt
  | le
  | gt
  | ge
  | isIn
  | notIn
  deriving DecidableEq, Repr

inductive Operator where
  | add
  | sub
  | mul
  | div
  | floorDiv
  | rem
  | pow
  | concat
  deriving DecidableEq, Repr

inductive Expr where
  | literal (value : Value)
  | var (name : String)
  | lookup (base key : Expr)
  | and (left right : Expr)
  | or (left right : Expr)
  | not (inner : Expr)
  | isDefined (target : Expr)
  | filter (name : String) (target : Expr) (args : List Expr)
  | compare (op : Comparison) (left right : Expr)
  | binary (op : Operator) (left right : Expr)
  | neg (inner : Expr)
  | call (callee : Expr) (args : List Expr)
  | test (name : String) (target : Expr) (args : List Expr) (negated : Bool)
  | list (items : List Expr)
  | dict (entries : List (Expr × Expr))
  | inlineIf (value condition : Expr) (otherwise : Option Expr)
  deriving Inhabited

/-- A parameter of a macro or of a call block. -/
structure Param where
  name : String
  default : Option Expr

inductive Node where
  | text (content : String)
  | output (e : Expr)
  | branch (arms : List (Expr × List Node)) (otherwise : Option (List Node))
  | inclusion (name : Expr) (ignoreMissing withContext : Bool)
  | block (name : String) (body : List Node)
  | loop (targets : List String) (items : Expr) (body : List Node)
      (otherwise : Option (List Node))
  | assign (name : String) (value : Expr)
  | extend (parent : Expr)
  | define (name : String) (params : List Param) (body : List Node)
  | callBlock (params : List Param) (call : Expr) (body : List Node)
  | filterBlock (name : String) (args : List Expr) (body : List Node)
  | importAs (template : Expr) (name : String)
  | importFrom (template : Expr) (names : List (String × String))
  deriving Inhabited

/-- The name that a macro body calls the body of its call block by. -/
def callerName : String := "caller"

/-- The name that a loop body sees its progress under. -/
def loopName : String := "loop"

namespace Expr

/-- The dotted path of a chain of lookups by fixed names and indices. -/
def path? : Expr → Option String
  | .var name => some name
  | .lookup base (.literal (.string segment)) => base.path?.map (· ++ "." ++ segment)
  | .lookup base (.literal (.int index)) =>
    base.path?.map (· ++ "." ++ String.ofList (Decimal.ofInt index.toInt))
  | _ => none

/-- The variable at the root of lookups of any kind. -/
def root? : Expr → Option String
  | .var name => some name
  | .lookup base _ => base.root?
  | _ => none

/-- The expressions that stand directly in an expression, in the order of the text. -/
def children : Expr → List Expr
  | .literal _ | .var _ => []
  | .lookup base key => [base, key]
  | .and left right | .or left right => [left, right]
  | .not inner | .isDefined inner | .neg inner => [inner]
  | .filter _ target args => target :: args
  | .compare _ left right | .binary _ left right => [left, right]
  | .call callee args => callee :: args
  | .test _ target args _ => target :: args
  | .list items => items
  | .dict entries => entries.flatMap (fun (key, value) => [key, value])
  | .inlineIf value condition otherwise => value :: condition :: otherwise.toList

end Expr

namespace Node

/-- The names that a node makes known to the nodes after it. -/
def declares : Node → List String
  | .assign name _ | .define name _ _ | .importAs _ name => [name]
  | .importFrom _ names => names.map (·.2)
  | _ => []

/-- The bodies of a statement, each with the names that are bound only there. -/
def bodies : Node → List (List String × List Node)
  | .loop targets _ body otherwise =>
    (targets ++ [loopName], body) :: otherwise.toList.map (fun rest => ([], rest))
  | .define _ params body => [(params.map (·.name) ++ [callerName], body)]
  | .callBlock params _ body => [(params.map (·.name), body)]
  | .filterBlock _ _ body => [([], body)]
  | _ => []

/-- The expressions of a statement whose variables count as used where it stands: defaults of
parameters, targets of call blocks and arguments of filters. -/
def arguments : Node → List Expr
  | .define _ params _ => params.filterMap (·.default)
  | .callBlock params call _ => params.filterMap (·.default) ++ [call]
  | .filterBlock _ args _ => args
  | _ => []

end Node

end Folio
