import Folio.FileTree
import Folio.Frontmatter

/-! Documents: markdown with the variables of its frontmatter, in one file or in chapters. -/
namespace Folio

structure Document where
  frontmatter : Namespace
  markdown : String

namespace Document

/-- A thematic break stands between chapters. -/
def chapterSeparator : String := "\n\n---\n\n"

/-- Reads the document in a file. -/
def read (files : FileTree) (path : String) : Except Error Document := do
  let raw ← (files.read path).mapError Error.file
  let (frontmatter, markdown) ← Frontmatter.read raw
  return ⟨frontmatter, markdown⟩

/-- Joins chapters. The first one has the frontmatter of the whole. -/
def join (first : Document) (others : List Document) : Document :=
  ⟨first.frontmatter, chapterSeparator.intercalate ((first :: others).map (·.markdown))⟩

/-- Reads the chapters in a directory or, if there are none, the file at a path. -/
def load (files : FileTree) (path : Option String) (chapters : List String) (directory : String) :
    Except Error Document := do
  let documents ← chapters.mapM (fun chapter => read files (Path.join directory chapter))
  match documents, path with
  | first :: others, _ => return join first others
  | [], some path => read files path
  | [], none => throw .noContentSource

end Document

end Folio
