import Folio.Template.ParseError
import Folio.Text.Space

/-! Reading a template from the left. A parser takes characters off the text that is left and keeps track of
where in the source that starts; a fault has the position where it happened. -/
namespace Folio.Template

/-- A position in a source: the bytes before it, the number of its line, and the bytes before that line.
As a class it is left out for a text that is read by itself, which stands at the start of its source. -/
class Position where
  offset : Nat
  line : Nat
  lineStart : Nat

namespace Position

instance start : Position :=
  ⟨0, 1, 0⟩

/-- The position behind a character. -/
abbrev advance (position : Position) (c : Char) : Position where
  offset := position.offset + c.utf8Size
  line := if c = '\n' then position.line + 1 else position.line
  lineStart := if c = '\n' then position.offset + 1 else position.lineStart

/-- The position so many bytes further on the line. -/
abbrev skip (position : Position) (bytes : Nat) : Position :=
  { position with offset := position.offset + bytes }

end Position

/-- The text that is left to read, and where it starts. `trimNext` says that the last tag closed with a
dash, so that the next text loses the blanks at its start. -/
structure Cursor where
  rest : List Char
  trimNext : Bool
  [position : Position]

/-- An error before the text that was left. -/
structure Fault where
  rest : List Char
  cause : ParseError.Cause
  [position : Position]

abbrev Parser := StateT Cursor (Except Fault)

/-- The number of bytes of a text. -/
def byteLength (text : List Char) : Nat :=
  text.foldl (fun bytes c => bytes + c.utf8Size) 0

/-- The fault as an error of the source. Columns count from one. -/
def Fault.locate (fault : Fault) : ParseError :=
  { line := fault.position.line
    column := fault.position.offset - fault.position.lineStart + 1
    cause := fault.cause }

/-! ### Words -/

def isIdentStart (c : Char) : Bool :=
  c.isAlpha || c = '_'

def isIdentRest (c : Char) : Bool :=
  c.isAlphanum || c = '_'

/-- The text starts with a token. -/
def startsWith (token : String) (text : List Char) : Bool :=
  token.toList.isPrefixOf text

/-- The text starts with a keyword that no further letter continues. -/
def startsWithWord (keyword : String) (text : List Char) : Bool :=
  match keyword.toList.isPrefixOf? text with
  | some (c :: _) => !isIdentRest c
  | some [] => true
  | none => false

/-- Drops a token that the text may start with. -/
def dropToken (token : String) (text : List Char) : List Char :=
  (token.toList.isPrefixOf? text).getD text

/-- The identifier that the text starts with, after blanks. -/
def identifier? (text : List Char) : Option (String × List Char) :=
  match text.dropWhile Text.isBlank with
  | c :: rest =>
    if isIdentStart c then
      some (String.ofList (c :: rest.takeWhile isIdentRest), rest.dropWhile isIdentRest)
    else none
  | [] => none

/-- The keyword of the tag that the text starts with. -/
def tagKeyword? (text : List Char) : Option String :=
  match text with
  | '{' :: '%' :: rest => (identifier? (dropToken "-" rest)).map (·.1)
  | _ => none

/-- What of a text is in front of an end of it. -/
def front (text after : List Char) : List Char :=
  text.take (text.length - after.length)

/-- The least number of characters from the start that fill so many bytes. -/
def snippet : Nat → List Char → List Char
  | _, [] => []
  | 0, _ => []
  | n + 1, c :: rest => c :: snippet (n + 1 - c.utf8Size) rest

namespace Parser

def fail {α : Type} (cause : ParseError.Cause) : Parser α :=
  fun cursor => .error { rest := cursor.rest, cause, position := cursor.position }

def rest : Parser (List Char) :=
  return (← get).rest

/-- Goes on behind a part of the text. -/
def goto (passed rest : List Char) : Parser Unit :=
  modify (fun cursor =>
    { cursor with rest, position := passed.foldl Position.advance cursor.position })

/-- Goes on behind a token, which has no line break. -/
def pass (token : String) (rest : List Char) : Parser Unit :=
  modify (fun cursor =>
    { cursor with rest, position := cursor.position.skip token.utf8ByteSize })

def peek (token : String) : Parser Bool :=
  return startsWith token (← rest)

def atEnd : Parser Bool :=
  return (← rest).isEmpty

def skipBlank : Parser Unit := do
  let text ← rest
  goto (text.takeWhile Text.isBlank) (text.dropWhile Text.isBlank)

/-- Takes a token if the text starts with it. -/
def consume (token : String) : Parser Bool := do
  match token.toList.isPrefixOf? (← rest) with
  | some rest => pass token rest; return true
  | none => return false

/-- Takes a keyword after blanks. The blanks are taken in any case. -/
def consumeWord (keyword : String) : Parser Bool := do
  skipBlank
  if startsWithWord keyword (← rest) then consume keyword else return false

/-- The fault of finding something else than a token. -/
def failExpected {α : Type} (token : String) : Parser α := do
  let found := String.ofList (snippet (token.utf8ByteSize + 10) (← rest))
  fail (.expected ("'" ++ token ++ "', found '" ++ found ++ "'"))

def expect (token : String) : Parser Unit := do
  if ← consume token then return
  else if ← atEnd then fail (.unexpectedEnd token)
  else failExpected token

def expectWord (keyword : String) : Parser Unit := do
  if ← consumeWord keyword then return else failExpected keyword

def identifier : Parser String := do
  skipBlank
  match identifier? (← rest) with
  | some (name, rest) => goto name.toList rest; return name
  | none =>
    match ← rest with
    | c :: _ => fail (.invalidIdentifier c)
    | [] => fail (.unexpectedEnd "identifier")

/-- Takes a closing delimiter. A dash in front of it trims the text that follows. -/
def expectClose (close : String) : Parser Unit := do
  skipBlank
  match ← rest with
  | '-' :: after =>
    if startsWith close after then
      pass ("-" ++ close) (dropToken close after)
      modify (fun cursor => { cursor with trimNext := true })
    else expect close
  | _ => expect close

/-! ### Repetitions

Every repetition is given a bound on its rounds. As a round takes a character, a bound above the length
of the text that is left is never used up. -/

/-- The bound is used up. -/
def exhausted {α : Type} : Parser α :=
  fail .exhausted

/-- Reads on from a value for as long as there is a step to take. -/
def extendWhile {α : Type} (step : α → Parser (Option α)) : Nat → α → Parser α
  | 0, _ => exhausted
  | bound + 1, value => do
    match ← step value with
    | some longer => extendWhile step bound longer
    | none => return value

/-- Items separated by commas up to a closing token; a comma may follow the last item. -/
def listUntil {α : Type} (close : String) (item : Parser α) : Nat → Parser (List α)
  | 0 => exhausted
  | bound + 1 => do
    skipBlank
    if ← consume close then return []
    let first ← item
    skipBlank
    if ← consume "," then return first :: (← listUntil close item bound)
    expect close
    return [first]

/-- One or more items separated by commas. -/
def listOf {α : Type} (item : Parser α) : Nat → Parser (List α)
  | 0 => exhausted
  | bound + 1 => do
    let first ← item
    skipBlank
    if ← consume "," then return first :: (← listOf item bound) else return [first]

end Parser

end Folio.Template
