import Folio.FileTree
import Folio.Library

/-! Libraries of the template files below a directory. -/
namespace Folio.Library

/-- The files with these extensions are templates. -/
def extensions : List String := ["njk", "html", "md", "jinja"]

def isTemplateName (name : String) : Bool :=
  (Path.extension? name).any extensions.contains

/-- The template files of a tree, named by their paths inside it. The name of a single file is empty. -/
def templateFiles (path : String) (tree : FileTree) : List (String × ByteArray) :=
  let ofName (names : List String) : Option String := names.getLast?.or (Path.fileName? path)
  (tree.visible.filter (fun (names, _) => (ofName names).any isTemplateName)).map
    (fun (names, bytes) => ("/".intercalate names, bytes))

/-- Adds template files one after another up to the first that cannot be read or whose name is taken, and
counts those that parse. -/
def addFiles (library : Library) : List (String × ByteArray) → Library × Except Error Nat
  | [] => (library, .ok 0)
  | (name, bytes) :: rest =>
    match FileTree.textOf bytes with
    | .error error => (library, .error (.file error))
    | .ok source =>
      match library.addOrReject name source with
      | .error error => (library, .error error)
      | .ok (added, parses) =>
        let (final, count) := addFiles added rest
        (final, count.map (· + if parses then 1 else 0))

/-- Adds the template files below a directory. -/
def addDirectory (library : Library) (files : FileTree) (path : String) :
    Library × Except Error Nat :=
  match files.at? path with
  | .error error => (library, .error (.file error))
  | .ok tree => addFiles library (templateFiles path tree)

end Folio.Library
