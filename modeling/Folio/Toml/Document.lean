import Folio.Text.Reader
import Folio.Toml.Scalar

/-! TOML documents: a text is read line by line into a table of tables. -/
namespace Folio.Toml

open Text (Reader)

/-- How deep values may nest, and how many keys a dotted key may have. -/
def nestingLimit : Nat := 80

def skipBlank : Reader Unit := do
  let _ ← Reader.takeWhile isBlank

def lineBreak : Reader Unit :=
  Reader.token "\r\n" <|> Reader.token "\n"

def comment : Reader Unit := do
  Reader.token "#"
  let _ ← Reader.takeWhile isText

/-- Blanks, comments and breaks. -/
def skipSpace (bound : Nat) : Reader Unit := do
  skipBlank
  let _ ← Reader.many (do (comment <|> lineBreak); skipBlank) bound

/-! ### Keys -/

def isBareKeyChar (c : Char) : Bool :=
  c.isAlphanum || c = '-' || c = '_'

/-- A string on one line. -/
def quotedKey : Reader String := fun text =>
  let body := match text with
    | '"' :: rest => basicBody rest
    | '\'' :: rest => literalBody rest
    | _ => none
  body.map (fun (content, after) => (String.ofList content, after))

def bareKey : Reader String := do
  return String.ofList (← Reader.takeWhile1 isBareKeyChar)

/-- Keys with points between them. -/
def keys : Reader (List String) := do
  let key : Reader String := do
    skipBlank
    let key ← quotedKey <|> bareKey
    skipBlank
    return key
  let keys ← Reader.separated key (Reader.token ".") nestingLimit
  if keys.length < nestingLimit then return keys else failure

/-! ### Values -/

/-- The items of an array after its opening bracket, up to the closing one. -/
def arrayItems (value : Reader Item) (bound : Nat) : Nat → Reader (List Item)
  | 0 => failure
  | n + 1 => do
    skipSpace bound
    match ← optional (Reader.token "]") with
    | some _ => return []
    | none =>
      let item ← value
      skipSpace bound
      match ← optional (Reader.token ",") with
      | some _ => return item :: (← arrayItems value bound n)
      | none =>
        Reader.token "]"
        return [item]

/-- A key and its value. -/
def assignment (value : Reader Item) : Reader (List String × Item) := do
  let keys ← keys
  Reader.token "="
  skipBlank
  return (keys, ← value)

/-- The fields of a table in braces after the opening one. They stand on one line, and no comma follows
the last one. -/
def braceFields (value : Reader Item) (bound : Nat) : Reader Table := do
  skipBlank
  match ← optional (Reader.token "\x7d") with
  | some _ => return .empty .braces
  | none =>
    let field : Reader (List String × Item) := do
      let field ← assignment value
      skipBlank
      return field
    let fields ← Reader.separated field (Reader.token ",") bound
    Reader.token "\x7d"
    fields.foldlM (fun table (keys, value) => table.assign keys value) (Table.empty .braces)

/-- A value in which no other nests. -/
def scalar : Reader Item := do
  match ← Reader.peek? with
  | some '"' | some '\'' =>
    let s ← (string? : Reader String)
    return .string s
  | _ => (word? : Reader Item)

/-- A value in which others nest at most so deep, in a text of at most `bound` characters. -/
def value (bound : Nat) : Nat → Reader Item
  | 0 => scalar
  | depth + 1 => do
    match ← Reader.peek? with
    | some '[' =>
      Reader.token "["
      return .array (← arrayItems (value bound depth) bound bound)
    | some '\x7b' =>
      Reader.token "\x7b"
      return (← braceFields (value bound depth) bound).toItem
    | _ => scalar

/-! ### Lines -/

/-- What a line of a document says. -/
inductive Statement where
  | assign (keys : List String) (value : Item)
  | begin (path : List String)
  | beginNext (path : List String)

def header : Reader Statement := do
  Reader.token "[["
  let path ← keys
  Reader.token "]]"
  return .beginNext path

def simpleHeader : Reader Statement := do
  Reader.token "["
  let path ← keys
  Reader.token "]"
  return .begin path

/-- A line that starts a table or gives a key its value. -/
def statement (bound : Nat) : Reader Statement := do
  match ← Reader.peek? with
  | some '[' => header <|> simpleHeader
  | _ =>
    let (keys, value) ← assignment (value bound (nestingLimit - 1))
    return .assign keys value

/-- A line: a statement or nothing, and a comment or none. -/
def line (bound : Nat) : Reader (Option Statement) := do
  skipBlank
  match ← Reader.peek? with
  | none | some '\n' | some '\r' => return none
  | some '#' => comment; return none
  | _ =>
    let s ← statement bound
    skipBlank
    let _ ← optional comment
    return some s

def document (bound : Nat) : Reader (List (Option Statement)) := do
  let _ ← optional (Reader.token "\uFEFF")
  let lines ← Reader.separated (line bound) lineBreak bound
  Reader.atEnd
  return lines

/-! ### Tables -/

/-- Carries out a statement. Keys belong to the table whose header came last. -/
def perform (state : List String × Table) (s : Statement) : Option (List String × Table) :=
  let (path, root) := state
  match s with
  | .assign keys value => do
    return (path, ← root.changeAt false (·.assign keys value) path)
  | .begin path => do return (path, ← root.begin path)
  | .beginNext path => do return (path, ← root.beginNext path)

/-- The fields of a document. -/
def parse? (text : String) : Option (List (String × Item)) := do
  let lines ← (document text.toList.length).run? text.toList
  let (_, root) ← (lines.filterMap id).foldlM perform ([], Table.empty .header)
  return root.fields

end Folio.Toml
