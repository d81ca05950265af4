import Folio.Analysis.Missing
import Folio.Library
import Folio.Loader

/-! Surveys: the missing variables of a template and of the templates that it includes. Inclusions are
followed depth first in the order of the text, each name at most once. -/
namespace Folio

/-- Names in ascending order, each once. -/
def ascending (names : List String) : List String :=
  Fields.keys (Fields.ofList (names.map (fun name => (name, ()))))

/-- The entry for an inclusion that cannot be loaded. -/
def missingInclusion (name : String) : String :=
  "include:" ++ name

/-- What a survey reports, and the names it asked for in their order. -/
structure Survey where
  requested : List String
  outcome : Except RenderError (List String)

namespace Survey

section Follow

variable (ns : Namespace) (loader : Loader)

/-- Follows the inclusions that wait, the next one in front, up to one whose template is walked. `goOn` goes
on from there, with the inclusions of that template in front. -/
def followWith (goOn : List String → List String → List Inclusion → Survey) (requested found : List String) :
    List Inclusion → Survey
  | [] => ⟨requested, .ok (ascending found)⟩
  | next :: waiting =>
    if requested.contains next.name then followWith goOn requested found waiting
    else
      let requested := requested ++ [next.name]
      match loader.load next.name with
      | .ok none =>
        let found := if next.ignoreMissing then found else found ++ [missingInclusion next.name]
        followWith goOn requested found waiting
      | .error _ => followWith goOn requested (found ++ [missingInclusion next.name]) waiting
      | .ok (some text) =>
        match Template.parse text with
        | .error error => ⟨requested, .error (.parse next.name error)⟩
        | .ok nodes =>
          let here := (Node.walkAll ns next.locals nodes).1
          goOn requested (found ++ here.missing) (here.inclusions ++ waiting)

/-- Follows the inclusions that wait and those in their templates. `budget` templates can still be walked. -/
def follow : Nat → List String → List String → List Inclusion → Survey
  | 0 => followWith ns loader (fun requested _ _ => ⟨requested, .error .unsettled⟩)
  | budget + 1 => followWith ns loader (follow budget)

@[simp] theorem follow_nil (budget : Nat) (requested found : List String) :
    follow ns loader budget requested found [] = ⟨requested, .ok (ascending found)⟩ := by
  cases budget <;> rfl

end Follow

/-- Surveys a template that is given by its source, which has no more inclusions than bytes. -/
def run (source : String) (ns : Namespace) (loader : Loader) : Survey :=
  match Template.parse source with
  | .error error => ⟨[], .error (.parse Template.inlineName error)⟩
  | .ok nodes =>
    let here := (Node.walkAll ns [] nodes).1
    follow ns loader (source.utf8ByteSize + loader.limit) [] here.missing here.inclusions

end Survey

namespace Library

/-- The sources of a library, of rejected templates too. -/
def loader (library : Library) : Loader :=
  ⟨fun name => .ok (library.source? name),
    library.templates.length + library.rejected.length⟩

/-- The missing variables of the template of a name. -/
def missing (library : Library) (name : String) (ns : Namespace) :
    Except RenderError (List String) := do
  (Survey.run (← library.require name).source ns library.loader).outcome

end Library

end Folio
