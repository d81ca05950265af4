import Folio.Text.Search

/-! Paths of files. A path is read by its components, so that repeated slashes, slashes at the end and
inner points do not count; paths are equal, and are ordered, by their components. -/
namespace Folio.Path

inductive Component where
  | root
  | current
  | parent
  | name (text : List Char)
  deriving DecidableEq, Repr

namespace Component

/-- The root comes first, then the marks for here and for the parent, then names. -/
def rank : Component → Nat
  | .root => 0
  | .current => 1
  | .parent => 2
  | .name _ => 3

def text : Component → List Char
  | .name text => text
  | _ => []

/-- The component leads to where it starts or further in. -/
def isInner : Component → Bool
  | .current | .name _ => true
  | .root | .parent => false

def lt (a b : Component) : Bool :=
  a.rank < b.rank || (a.rank = b.rank && decide (a.text < b.text))

end Component

/-- A part between slashes as a component. Empty parts and points are none. -/
def component? (part : List Char) : Option Component :=
  if part = [] || part = ['.'] then none
  else if part = ['.', '.'] then some .parent
  else some (.name part)

/-- The components of a path. A point counts only at the start of a relative path. -/
def components (path : String) : List Component :=
  let parts := Text.splitOn '/' path.toList
  let named := parts.filterMap component?
  match parts with
  | [] :: _ :: _ => .root :: named
  | ['.'] :: _ => .current :: named
  | _ => named

def isAbsolute (path : String) : Bool :=
  path.toList.head? = some '/'

/-- The paths have the same components. -/
def same (a b : String) : Bool :=
  components a = components b

/-- The order of lists of components, by the first one that differs. -/
def before : List Component → List Component → Bool
  | _, [] => false
  | [], _ :: _ => true
  | a :: as, b :: bs => a.lt b || (a = b && before as bs)

/-- The last component, if it is a name. -/
def fileName? (path : String) : Option String :=
  match (components path).getLast? with
  | some (.name text) => some (String.ofList text)
  | _ => none

/-- What follows the last point of a name, if there is something before it. -/
def extension? (name : String) : Option String :=
  let after := (name.toList.reverse.takeWhile (· ≠ '.')).reverse
  if after.length + 1 < name.length then some (String.ofList after) else none

/-- Appends a path, with a slash between if there is none. An absolute path replaces the base. -/
def join (base path : String) : String :=
  if isAbsolute path || base.isEmpty then path
  else if base.toList.getLast? = some '/' then base ++ path
  else base ++ "/" ++ path

end Folio.Path
