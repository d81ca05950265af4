import Folio.Analysis.Known
import Folio.Template.Filter

/-! The variables that a template will look up and the namespace lacks. Only branches that can run are
followed: a condition that is not known keeps its own branch and those after it alive. -/
namespace Folio

/-- An inclusion on a live path, with the names that are bound where it stands. -/
structure Inclusion where
  name : String
  ignoreMissing : Bool
  locals : List String
  deriving DecidableEq

/-- What a walk through a template has found, in the order of the text. -/
structure Findings where
  missing : List String
  inclusions : List Inclusion
  deriving DecidableEq

namespace Findings

def none : Findings := ⟨[], []⟩

def append (a b : Findings) : Findings :=
  ⟨a.missing ++ b.missing, a.inclusions ++ b.inclusions⟩

instance : Append Findings := ⟨append⟩

end Findings

variable (ns : Namespace)

namespace Expr

/-- The path of the expression itself, if nothing supplies it. -/
def missingPath (locals : List String) (e : Expr) : List String :=
  match e.path? with
  | some path => if e.isLocal locals || ns.hasValueAt path then [] else [path]
  | none => []

mutual

/-- The paths in an expression that nothing supplies. What a default filter stands on may be missing. -/
def missing (locals : List String) : Expr → List String
  | .literal _ => []
  | .var name => missingPath ns locals (.var name)
  | .lookup base key =>
    missingPath ns locals (.lookup base key) ++ missing locals base ++ missing locals key
  | .and left right | .or left right | .compare _ left right | .binary _ left right =>
    missing locals left ++ missing locals right
  | .not inner | .isDefined inner | .neg inner => missing locals inner
  | .filter name target args =>
    if defaultFilters.contains name then missingAll locals args
    else missing locals target ++ missingAll locals args
  | .call callee args => missing locals callee ++ missingAll locals args
  | .test _ target args _ => missing locals target ++ missingAll locals args
  | .list items => missingAll locals items
  | .dict entries => missingEntries locals entries
  | .inlineIf value condition otherwise =>
    missing locals value ++ missing locals condition ++ missingOption locals otherwise

def missingAll (locals : List String) : List Expr → List String
  | [] => []
  | e :: es => missing locals e ++ missingAll locals es

def missingEntries (locals : List String) : List (Expr × Expr) → List String
  | [] => []
  | (key, value) :: entries =>
    missing locals key ++ missing locals value ++ missingEntries locals entries

def missingOption (locals : List String) : Option Expr → List String
  | none => []
  | some e => missing locals e

end

end Expr

namespace Node

/-- The findings in the arguments of a statement. -/
def argumentFindings (locals : List String) (node : Node) : Findings :=
  ⟨Expr.missingAll ns locals node.arguments, []⟩

mutual

/-- Walks a node with the names bound before it, and gives the names bound after it. -/
def walk (locals : List String) : Node → Findings × List String
  | .text _ => (.none, locals)
  | .output e => (⟨e.missing ns locals, []⟩, locals)
  | .branch arms otherwise => walkArms locals arms (fun locals => walkOption locals otherwise)
  | .inclusion name ignoreMissing withContext =>
    match name.knownText? ns locals with
    | some name => (⟨[], [⟨name, ignoreMissing, if withContext then locals else []⟩]⟩, locals)
    | none => (.none, locals)
  | .block _ body => walkAll locals body
  | .loop targets _ body otherwise =>
    ((walkAll (locals ++ targets ++ [loopName]) body).1 ++ (walkOption locals otherwise).1, locals)
  | .define name params body =>
    (argumentFindings ns locals (.define name params body) ++
      (walkAll (locals ++ params.map (·.name) ++ [callerName]) body).1, locals ++ [name])
  | .callBlock params call body =>
    (argumentFindings ns locals (.callBlock params call body) ++
      (walkAll (locals ++ params.map (·.name)) body).1, locals)
  | .filterBlock name args body =>
    (argumentFindings ns locals (.filterBlock name args body) ++ (walkAll locals body).1, locals)
  | .assign name _ => (.none, locals ++ [name])
  | .extend _ => (.none, locals)
  | .importAs _ name => (.none, locals ++ [name])
  | .importFrom _ names => (.none, locals ++ names.map (·.2))

def walkAll (locals : List String) : List Node → Findings × List String
  | [] => (.none, locals)
  | node :: nodes =>
    let (here, locals) := walk locals node
    let (after, locals) := walkAll locals nodes
    (here ++ after, locals)

/-- Walks the arms that can run, up to one whose condition is known to hold. -/
def walkArms (locals : List String) :
    List (Expr × List Node) → (List String → Findings × List String) → Findings × List String
  | [], otherwise => otherwise locals
  | (condition, body) :: arms, otherwise =>
    match condition.truth ns locals with
    | .true => walkAll locals body
    | .false => walkArms locals arms otherwise
    | .unknown =>
      let (here, locals) := walkAll locals body
      let (after, locals) := walkArms locals arms otherwise
      (here ++ after, locals)

def walkOption (locals : List String) : Option (List Node) → Findings × List String
  | none => (.none, locals)
  | some body => walkAll locals body

end

end Node

end Folio
