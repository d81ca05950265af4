import Folio.Analysis.Survey

/-! Placeholders in flat text such as the pattern of a file name. The text is not parsed: within the
delimiters string literals and the names of filters are passed over, and every dotted chain of
identifiers that is left counts as a path. -/
namespace Folio.Placeholder

open Template (isIdentStart isIdentRest)

/-- Words that are no variables. -/
def keywords : List String :=
  ["true", "false", "null", "undefined", "and", "or", "not", "in", "if", "else"]

/-- The contents of the placeholders of a text. They are not empty and hold no closing brace. -/
def bodies (text : List Char) : List (List Char) :=
  match text with
  | [] => []
  | '{' :: '{' :: rest =>
    let body := rest.takeWhile (· ≠ '}')
    match _h : rest.dropWhile (· ≠ '}') with
    | '}' :: '}' :: after =>
      if body.isEmpty then bodies ('{' :: rest) else Text.trim body :: bodies after
    | _ => bodies ('{' :: rest)
  | _ :: rest => bodies rest
termination_by text.length
decreasing_by
  all_goals simp_wf
  have := (List.dropWhile_suffix (l := rest) (· ≠ '}')).length_le
  rw [_h] at this
  simp only [List.length_cons] at this
  omega

/-- What follows a string literal, given the text after its opening quote. A literal ends on its line. -/
def afterLiteral (quote : Char) : List Char → Option (List Char)
  | [] => none
  | '\n' :: _ => none
  | '\\' :: [] => none
  | '\\' :: '\n' :: _ => none
  | '\\' :: _ :: rest => afterLiteral quote rest
  | c :: rest => if c = quote then some rest else afterLiteral quote rest

theorem length_afterLiteral {quote : Char} {text rest : List Char}
    (h : afterLiteral quote text = some rest) : rest.length < text.length := by
  fun_induction afterLiteral quote text with
  | case1 | case2 | case3 | case4 => simp at h
  | case5 => rename_i ih; have := ih h; simp only [List.length_cons]; omega
  | case6 => cases h; simp
  | case7 => rename_i ih; have := ih h; simp only [List.length_cons]; omega

/-- Removes string literals. A quote without its partner stays. -/
def withoutLiterals (text : List Char) : List Char :=
  match text with
  | [] => []
  | c :: rest =>
    if c = '"' || c = '\'' || c = '\x60' then
      match _h : afterLiteral c rest with
      | some after => withoutLiterals after
      | none => c :: withoutLiterals rest
    else c :: withoutLiterals rest
termination_by text.length
decreasing_by
  all_goals simp_wf
  have := length_afterLiteral _h
  omega

/-- Removes the name of a filter at the start of a text, with the blanks before it. -/
def withoutName (text : List Char) : List Char :=
  match Text.trimStart text with
  | c :: rest => if isIdentStart c then rest.dropWhile isIdentRest else text
  | [] => text

theorem length_withoutName (text : List Char) : (withoutName text).length ≤ text.length := by
  rw [withoutName]
  have trim := (List.dropWhile_suffix (l := text) Text.isBlank).length_le
  split
  · rename_i c rest h
    rw [Text.trimStart] at h
    rw [h, List.length_cons] at trim
    split
    · have := (List.dropWhile_suffix (l := rest) isIdentRest).length_le
      omega
    · exact Nat.le_refl _
  · exact Nat.le_refl _

/-- Removes the names of filters and keeps their arguments. -/
def withoutFilters (text : List Char) : List Char :=
  match text with
  | [] => []
  | '|' :: rest => '|' :: withoutFilters (withoutName rest)
  | c :: rest => c :: withoutFilters rest
termination_by text.length
decreasing_by
  all_goals simp_wf
  have := length_withoutName rest
  omega

/-- Splits a text after the chain of identifiers that it starts with. -/
def splitChain : List Char → List Char × List Char
  | [] => ([], [])
  | c :: rest =>
    if isIdentRest c || (c = '.' && rest.head?.any isIdentStart) then
      let (chain, after) := splitChain rest
      (c :: chain, after)
    else ([], c :: rest)

theorem length_splitChain (text : List Char) : (splitChain text).2.length ≤ text.length := by
  induction text with
  | nil => simp [splitChain]
  | cons c rest ih => rw [splitChain]; split <;> simp only [List.length_cons] <;> omega

/-- The maximal dotted chains of identifiers in a text. -/
def chains (text : List Char) : List (List Char) :=
  match text with
  | [] => []
  | c :: rest =>
    if isIdentStart c then
      (c :: (splitChain rest).1) :: chains (splitChain rest).2
    else chains rest
termination_by text.length
decreasing_by
  all_goals simp_wf
  have := length_splitChain rest
  omega

/-- A text of identifier characters and points that starts like an identifier. -/
def isPath : List Char → Bool
  | c :: rest => isIdentStart c && rest.all (fun c => isIdentRest c || c = '.')
  | [] => false

/-- The paths in the content of a placeholder. What stands before the first filter is one as a whole if
it looks like it. -/
def paths (body : List Char) : List String :=
  let first := Text.trim (body.takeWhile (· ≠ '|'))
  let found := (if isPath first then [first] else []) ++ chains (withoutFilters (withoutLiterals body))
  (found.map String.ofList).filter (fun path => !keywords.contains path)

/-- The paths in all placeholders of a text. -/
def referenced (text : String) : List String :=
  ascending ((bodies text.toList).flatMap paths)

/-- The paths that have no value. -/
def missing (text : String) (ns : Namespace) : List String :=
  (referenced text).filter (fun path => !ns.hasValueAt path)

end Folio.Placeholder
