/-! Readers that take characters off a text and fail without a word. A failing reader takes nothing, so
that another one can be tried in its place. -/
namespace Folio.Text

abbrev Reader := StateT (List Char) Option

namespace Reader

/-- Takes a token. -/
def token (text : String) : Reader Unit :=
  fun rest => (text.toList.isPrefixOf? rest).map (fun after => ((), after))

/-- Takes the characters at the start that have a property. -/
def takeWhile (p : Char → Bool) : Reader (List Char) :=
  fun rest => some (rest.takeWhile p, rest.dropWhile p)

/-- Takes the characters at the start that have a property; there has to be one. -/
def takeWhile1 (p : Char → Bool) : Reader (List Char) := do
  let found ← takeWhile p
  if found.isEmpty then failure else return found

def peek? : Reader (Option Char) :=
  fun rest => some (rest.head?, rest)

/-- Succeeds at the end of the text. -/
def atEnd : Reader Unit :=
  fun rest => if rest.isEmpty then some ((), []) else none

/-- Reads items for as long as there are any, at most `bound`. -/
def many {α : Type} (item : Reader α) : Nat → Reader (List α)
  | 0 => return []
  | bound + 1 => do
    match ← optional item with
    | some first => return first :: (← many item bound)
    | none => return []

/-- Reads one or more items with a separator between them, at most `bound + 1`. -/
def separated {α : Type} (item : Reader α) (separator : Reader Unit) : Nat → Reader (List α)
  | 0 => do return [← item]
  | bound + 1 => do
    let first ← item
    match ← optional separator with
    | some _ => return first :: (← separated item separator bound)
    | none => return [first]

/-- Runs a reader on a text that it has to read to the end. -/
def run? {α : Type} (reader : Reader α) (text : List Char) : Option α :=
  match reader text with
  | some (value, []) => some value
  | _ => none

end Reader

end Folio.Text
