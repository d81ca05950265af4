import Folio.Loader
import Folio.Text.Space

/-! Stylesheets that extend others. A sheet may start with `/* @extends parent */`; the parent's rules then
come before its own. -/
namespace Folio.Stylesheet

/-- Characters of the names of sheets in directives. -/
def isNameChar (c : Char) : Bool :=
  c.isAlphanum || c = '_' || c = '-'

/-- Drops one line break. -/
def dropLineBreak : List Char → List Char
  | '\r' :: '\n' :: rest => rest
  | '\n' :: rest => rest
  | text => text

/-- Splits the directive off a sheet: the name of the parent and the text after the directive and one
line break. -/
def directive? (css : List Char) : Option (String × List Char) := do
  let body ← "/*".toList.isPrefixOf? css
  let body ← "@extends".toList.isPrefixOf? (Text.trimStart body)
  if !body.head?.any Text.isBlank then none
  let body := Text.trimStart body
  let name := body.takeWhile isNameChar
  if name.isEmpty then none
  let rest ← "*/".toList.isPrefixOf? (Text.trimStart (body.dropWhile isNameChar))
  return (String.ofList name, dropLineBreak rest)

/-- What a sheet resolves to, and the names that were asked for in their order. -/
structure Resolution where
  requested : List String
  outcome : Except Error String

/-- Puts texts behind a sheet, the last of them first. -/
def stack (sheet : String) (texts : List String) : String :=
  texts.reverse.foldl (fun above text => above ++ "\n" ++ text) sheet

/-- Goes from a sheet to its parent and on, up to the sheet that extends nothing. `chain` holds the names on the way and
`texts` what their sheets hold besides the directive. The first sheet of a chain may be absent; a sheet that comes twice
closes a cycle. -/
def climb (loader : Loader) (budget : Nat) (chain texts : List String) (name : String) : Resolution :=
  if chain.contains name then ⟨chain, .error (.inheritanceCycle (chain ++ [name]))⟩
  else
    let requested := chain ++ [name]
    match loader.load name with
    | .error error => ⟨requested, .error (.file error)⟩
    | .ok none =>
      ⟨requested, if chain.isEmpty then .ok "" else .error (.missingParentStylesheet name)⟩
    | .ok (some css) =>
      match directive? css.toList, budget with
      | none, _ => ⟨requested, .ok (stack css texts)⟩
      | some _, 0 => ⟨requested, .error (.render .unsettled)⟩
      | some (parent, own), budget + 1 => climb loader budget requested (texts ++ [String.ofList own]) parent

def resolve (loader : Loader) (name : String) : Resolution :=
  climb loader (loader.limit + 1) [] [] name

end Folio.Stylesheet
