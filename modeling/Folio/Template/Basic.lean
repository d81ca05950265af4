import Folio.Template.Parser.Node
import Folio.Template.RenderError

/-! Templates: named source texts that parse. -/
namespace Folio

/-- A named source text and its nodes. -/
structure Template where
  name : String
  source : String
  nodes : List Node
  parsed : Template.parse source = .ok nodes

namespace Template

/-- The name of templates that are rendered straight from their text. -/
def inlineName : String := "<inline>"

/-- Reads a template. -/
def read (name source : String) : Except RenderError Template :=
  match parsed : parse source with
  | .ok nodes => .ok ⟨name, source, nodes, parsed⟩
  | .error error => .error (.parse name error)

/-- A text whose template passes a check can be read. -/
theorem exists_of_read {name source : String} {check : Template → Bool}
    (h : (read name source).toOption.any check) :
    ∃ template, read name source = .ok template ∧ check template := by
  cases found : read name source with
  | error error =>
    rw [found] at h
    cases h
  | ok template =>
    rw [found] at h
    exact ⟨template, rfl, h⟩

end Template

end Folio
