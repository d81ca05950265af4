import Folio.Analysis.Survey
import Folio.Document
import Folio.Library.Directory
import Folio.Presentation
import Folio.Stylesheet
import Folio.Warning

/-! Published documents: the body and then the layout of its template are rendered, and the variables that
are missing on the way are reported. -/
namespace Folio

structure Publication where
  html : String
  /-- The variables of the document alone. -/
  frontmatter : Namespace
  presentation : Presentation
  warnings : List MissingVariables

namespace Publication

/-- The name of the layout in the directory of a template. -/
def layoutName : String := "template.njk"

/-- The library of a template's directory. Without the directory it is empty. -/
def libraryOf (files : FileTree) (directory : String) (locale : Locale) : Except Error Library :=
  let start : Library := { Library.empty with locale }
  if files.isDirectoryAt directory then
    match start.addDirectory files directory with
    | (library, .ok _) => .ok library
    | (_, .error error) => .error error
  else .ok start

/-- A report, unless nothing is missing. -/
def report (context : String) (missing : List String) : List MissingVariables :=
  if missing.isEmpty then [] else [⟨context, missing⟩]

/-- Publishes the document of a configuration, or the one at a path. `convert` makes HTML of the rendered
body. -/
def build (files : FileTree) (templates : String) (convert : String → String) (path : Option String)
    (config : Config) (directory : String) : Except Error Publication := do
  let document ← Document.load files path (config.chapters.getD []) directory
  let presentation := Presentation.build config document.frontmatter
  let library ← libraryOf files (Path.join templates presentation.template) config.locale
  let vars := presentation.vars
  let bodyMissing ← (Survey.run document.markdown vars library.loader).outcome.mapError Error.render
  let body ← (library.renderText document.markdown vars).mapError Error.render
  let css ← (Stylesheet.resolve (.stylesheets files templates) presentation.template).outcome
  let layout := presentation.layoutNamespace (convert body) css
  let layoutMissing ← (library.missing layoutName layout).mapError Error.render
  let html ← (library.render layoutName layout).mapError Error.render
  let layoutContext := "template \"" ++ presentation.template ++ "/" ++ layoutName ++ "\""
  return {
    html, presentation
    frontmatter := document.frontmatter
    warnings := report "markdown" bodyMissing ++ report layoutContext layoutMissing }

end Publication

end Folio
