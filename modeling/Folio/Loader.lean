import Folio.FileTree

/-! Where texts are asked for by name. -/
namespace Folio

/-- The text of a name, if it has one. A search that only asks for the names it starts with and for those
in the texts it loads meets no more than `limit` names of the latter kind that have a text. -/
structure Loader where
  load : String → Except FileError (Option String)
  limit : Nat

namespace Loader

/-- A finite collection of texts. -/
def ofList (texts : List (String × String)) : Loader :=
  ⟨fun name => .ok (texts.lookup name), texts.length⟩

/-- The path of an inclusion below a root. Names that are absolute or have a step to the parent have
none. -/
def inclusionPath? (root name : String) : Option String :=
  if (Path.components name).all Path.Component.isInner then some (Path.join root name) else none

/-- Looks for an inclusion below a root by a way to read files. A name that has no path has no text. -/
def readInclusion {m : Type → Type} [Monad m] (read : String → m (Option String)) (root name : String) :
    m (Option String) :=
  (inclusionPath? root name).elim (pure none) read

/-- The files below a root as inclusions. A name takes at least a byte of the text that asks for it. -/
def inclusions (files : FileTree) (root : String) : Loader where
  load := readInclusion files.readIfPresent root
  limit := files.size

/-- Where the stylesheet of a template is. -/
def stylesheetPath (root template : String) : String :=
  Path.join (Path.join root template) "style.css"

/-- The stylesheets of the templates below a root. -/
def stylesheets (files : FileTree) (root : String) : Loader where
  load name := files.readIfPresent (stylesheetPath root name)
  limit := files.size

end Loader

end Folio
