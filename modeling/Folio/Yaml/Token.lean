/-! The tokens of a YAML document. Indentation has become tokens of its own that begin and end block
collections. -/
namespace Folio.Yaml

inductive Token where
  | documentStart
  | documentEnd
  | blockSequence
  | blockMapping
  | blockEnd
  | openBracket
  | closeBracket
  | openBrace
  | closeBrace
  /-- The dash before an item. -/
  | entry
  | comma
  | key
  | value
  | scalar (plain : Bool) (text : List Char)
  deriving DecidableEq, Repr

/-- Space and tab. -/
def isBlank (c : Char) : Bool :=
  c = ' ' || c = '\t'

/-- Ends of lines, after carriage returns and next-line marks have become line feeds. -/
def isBreak (c : Char) : Bool :=
  c = '\n' || c = '\u2028' || c = '\u2029'

/-- The text starts with a blank or a break, or is at its end. -/
def atGap : List Char → Bool
  | [] => true
  | c :: _ => isBlank c || isBreak c

/-- Characters that a document may hold. -/
def isAllowed (c : Char) : Bool :=
  let n := c.toNat
  c = '\t' || c = '\n' || c = '\r' || (0x20 ≤ n && n ≤ 0x7E) || n = 0x85 ||
    (0xA0 ≤ n && n ≤ 0xFFFD) || 0x10000 ≤ n

/-- Makes every end of a line that is not a separator of its own a line feed. -/
def normalizeBreaks : List Char → List Char
  | [] => []
  | '\r' :: '\n' :: rest => '\n' :: normalizeBreaks rest
  | c :: rest => (if c = '\r' || c = '\u0085' then '\n' else c) :: normalizeBreaks rest

/-- The text starts with a mark of three characters that a gap follows. -/
def startsMark (c : Char) : List Char → Bool
  | x :: y :: z :: rest => x = c && y = c && z = c && atGap rest
  | _ => false

/-- The text starts with a mark between documents. -/
def atDocumentMark (text : List Char) : Bool :=
  startsMark '-' text || startsMark '.' text

end Folio.Yaml
