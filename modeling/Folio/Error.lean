import Folio.Template.RenderError

/-! The ways in which publishing a document fails. -/
namespace Folio

/-- Why a file cannot be read. -/
inductive FileError where
  | notFound
  | isDirectory
  | notDirectory
  | invalidText
  | permissionDenied
  | nameTooLong
  | invalidPath
  deriving DecidableEq, Repr

inductive Error where
  | render (error : RenderError)
  | templateExists (name : String)
  | inheritanceCycle (chain : List String)
  | missingParentStylesheet (name : String)
  | outputCollision (output : String) (sources : List String)
  | noContentSource
  | config (path : String)
  | frontmatter
  | file (error : FileError)
  deriving DecidableEq, Repr

instance : Coe RenderError Error := ⟨.render⟩

namespace Error

/-- The text of an error. What is wrong with a configuration, a frontmatter or a file is told by the
reader of that format and not repeated here. -/
def message : Error → String
  | .render error => error.message
  | .templateExists name => "Template already exists: " ++ name
  | .inheritanceCycle chain =>
    "Template CSS inheritance cycle detected: " ++ " -> ".intercalate chain
  | .missingParentStylesheet name =>
    "Template '" ++ name ++ "' is missing style.css required by @extends"
  | .outputCollision output _ =>
    "Multiple source files resolve to the same output: " ++ output
  | .noContentSource => "No content source: provide a markdown path or configure chapters"
  | .config path => "Invalid config " ++ path
  | .frontmatter => "Invalid frontmatter"
  | .file _ => "IO error"

end Error

end Folio
