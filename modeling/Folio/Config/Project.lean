import Folio.Config
import Folio.FileTree

/-! The configurations of a directory and of a project inside it. -/
namespace Folio.Config

def fileName : String := "publishpipe.toml"

/-- Reads the configuration file of a directory. Without one there are no settings. -/
def read (files : FileTree) (directory : String) : Except Error Config :=
  let path := Path.join directory fileName
  match files.readIfPresent path with
  | .ok (some text) => parse text path
  | .ok none => .ok empty
  | .error error => .error (.file error)

/-- Both paths start at one place, and are equal when it is put in front of them. -/
def isSameDirectory (a b : String) : Bool :=
  Path.isAbsolute a = Path.isAbsolute b && Path.same (Path.join "/" a) (Path.join "/" b)

/-- Reads the configuration of a root and lays that of a project over it. -/
def readProject (files : FileTree) (root : String) (project : Option String) :
    Except Error Config := do
  let base ← read files root
  match project with
  | some project =>
    if isSameDirectory project root then return base else return base.merge (← read files project)
  | none => return base

end Folio.Config
