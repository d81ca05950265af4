import Folio.Text.Alphanumeric
import Folio.Text.Cased
import Folio.Text.CaseTable

/-! Upper, lower and title case by the full mappings of the character standard: one character may
become several, and a capital sigma at the end of a word becomes a final sigma. -/
namespace Folio.Text

/-- Looks a code point up in the expansions, then in the runs; one in neither stays as it is. -/
def mapCase (runs : List (Nat × Nat × Nat × Int)) (expansions : List (Nat × List Nat))
    (c : Char) : List Char :=
  match expansions.find? (fun entry => entry.1 = c.toNat) with
  | some entry => entry.2.map Char.ofNat
  | none =>
    match runs.find? (fun (first, last, step, _) =>
        first ≤ c.toNat && c.toNat ≤ last && (c.toNat - first) % step = 0) with
    | some (_, _, _, shift) => [Char.ofNat ((c.toNat : Int) + shift).toNat]
    | none => [c]

def upperChar (c : Char) : List Char :=
  if c.toNat < 128 then [c.toUpper] else mapCase upperRuns upperExpansions c

def lowerChar (c : Char) : List Char :=
  if c.toNat < 128 then [c.toLower] else mapCase lowerRuns lowerExpansions c

def upper (text : List Char) : List Char :=
  text.flatMap upperChar

/-- The first character that is not ignorable has case. -/
def meetsCased (text : List Char) : Bool :=
  match text.dropWhile isCaseIgnorable with
  | [] => false
  | c :: _ => isCased c

/-- Lowers a text that follows `before`, which is given in reverse. A capital sigma is final when a
cased letter comes before it and none after it. -/
def lowerAfter : List Char → List Char → List Char
  | _, [] => []
  | before, c :: rest =>
    if c = 'Σ' then
      (if meetsCased before && !meetsCased rest then 'ς' else 'σ') :: lowerAfter (c :: before) rest
    else lowerChar c ++ lowerAfter (c :: before) rest

def lower (text : List Char) : List Char :=
  lowerAfter [] text

/-- Raises the first character and lowers the rest as a text of its own. -/
def capitalize : List Char → List Char
  | [] => []
  | c :: rest => upperChar c ++ lower rest

/-- Raises every character that does not follow a letter or number and lowers the others, each by
itself. -/
def titleAfter : Bool → List Char → List Char
  | _, [] => []
  | inWord, c :: rest =>
    (if inWord then lowerChar c else upperChar c) ++ titleAfter (isAlphanumeric c) rest

def title (text : List Char) : List Char :=
  titleAfter false text

end Folio.Text
