import Folio.Analysis.Placeholder
import Folio.Path

/-! The sources of a batch of documents: choosing them by name, and planning where each one is written
so that no two go to one place. -/
namespace Folio.Sources

def markdownSuffix : List Char :=
  ".md".toList

/-- A name without a suffix `.md` in any letter case. -/
def normalizedName (name : String) : String :=
  match name.toList.reverse with
  | d :: m :: '.' :: stem =>
    if m.toLower = 'm' && d.toLower = 'd' then String.ofList stem.reverse else name
  | _ => name

/-- The file name of a source without the suffix `.md`. -/
def stem (source : String) : String :=
  let name := ((Path.fileName? source).getD "").toList
  match markdownSuffix.reverse.isPrefixOf? name.reverse with
  | some rest => String.ofList rest.reverse
  | none => String.ofList name

/-- The sources of a name. -/
def named (sources : List String) (name : String) : List String :=
  sources.filter (fun source => stem source = normalizedName name)

/-- The variable that stands for the stem of the source in the pattern of an output. -/
def stemVariable : String := "fn"

/-- Where a source is written, and the variables that the pattern lacks. -/
structure Plan where
  source : String
  output : String
  missing : List String

/-- The plan of one source. Its stem hides a variable of the same name. -/
def planOne (pattern : String) (vars : Namespace) (base : String) (locale : Locale)
    (source : String) : Except Error Plan := do
  let file : Namespace := .ofList [(stemVariable, .string (stem source))]
  let ns := Namespace.mergeLayers [some vars, some file]
  let name ← (Template.renderText pattern ns locale).mapError Error.render
  return ⟨source, Path.join base name, Placeholder.missing pattern ns⟩

/-- The least output that several plans share, as the first of them writes it, and their sources. -/
def collision? (plans : List Plan) : Option (String × List String) :=
  let sharing (plan : Plan) : List Plan := plans.filter (fun other => Path.same other.output plan.output)
  let shared := plans.filter (fun plan => 1 < (sharing plan).length)
  let least := shared.foldl (fun least plan =>
    match least with
    | none => some plan
    | some best =>
      if Path.before (Path.components plan.output) (Path.components best.output) then some plan
      else least) none
  least.map (fun plan => (plan.output, (sharing plan).map (·.source)))

/-- Plans an output for every source. -/
def plan (pattern : String) (sources : List String) (vars : Namespace) (base : String)
    (locale : Locale) : Except Error (List Plan) := do
  let plans ← sources.mapM (planOne pattern vars base locale)
  match collision? plans with
  | some (output, sources) => .error (.outputCollision output sources)
  | none => .ok plans

end Folio.Sources
