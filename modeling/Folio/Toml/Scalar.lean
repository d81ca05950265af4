import Folio.Calendar.Date
import Folio.Text.Digit
import Folio.Text.Search
import Folio.Toml.Basic
import Folio.Value.Number

/-! Strings, numbers, truth values, dates and times of TOML. -/
namespace Folio.Toml

def isBlank (c : Char) : Bool :=
  c = ' ' || c = '\t'

/-- A tab, or a character that is not a control character. -/
def isText (c : Char) : Bool :=
  c = '\t' || (0x20 ≤ c.toNat && c.toNat ≠ 0x7F)

/-! ### Strings -/

/-- The character of an escape of one letter. -/
def escape? : Char → Option Char
  | 'b' => some '\x08'
  | 't' => some '\t'
  | 'n' => some '\n'
  | 'f' => some '\x0c'
  | 'r' => some '\r'
  | '"' => some '"'
  | '\\' => some '\\'
  | _ => none

/-- Puts a character before the content of a string. -/
def cons (c : Option Char) (body : Option (List Char × List Char)) :
    Option (List Char × List Char) := do
  let c ← c
  let (content, after) ← body
  return (c :: content, after)

/-- A text without an escape up to its closing quote, and what follows. -/
def literalBody : List Char → Option (List Char × List Char)
  | [] => none
  | '\'' :: rest => some ([], rest)
  | c :: rest => if isText c then cons (some c) (literalBody rest) else none

/-- A text on one line up to its closing quote, and what follows. -/
def basicBody : List Char → Option (List Char × List Char)
  | [] => none
  | '"' :: rest => some ([], rest)
  | '\\' :: 'u' :: a :: b :: c :: d :: rest =>
    cons (Text.hexChar? [a, b, c, d]) (basicBody rest)
  | '\\' :: 'U' :: a :: b :: c :: d :: e :: f :: g :: h :: rest =>
    cons (Text.hexChar? [a, b, c, d, e, f, g, h]) (basicBody rest)
  | '\\' :: c :: rest => cons (escape? c) (basicBody rest)
  | c :: rest => if isText c then cons (some c) (basicBody rest) else none

/-- The line ends after blanks. -/
def endsLine (text : List Char) : Bool :=
  match text.dropWhile isBlank with
  | '\n' :: _ => true
  | '\r' :: '\n' :: _ => true
  | _ => false

/-- A text without escapes on several lines up to its closing quotes. Up to two quotes may stand before
them. -/
def longLiteralBody : List Char → Option (List Char × List Char)
  | [] => none
  | '\'' :: '\'' :: '\'' :: '\'' :: '\'' :: rest => some (['\'', '\''], rest)
  | '\'' :: '\'' :: '\'' :: '\'' :: rest => some (['\''], rest)
  | '\'' :: '\'' :: '\'' :: rest => some ([], rest)
  | '\r' :: '\n' :: rest => cons (some '\n') (longLiteralBody rest)
  | c :: rest =>
    if c = '\n' || isText c then cons (some c) (longLiteralBody rest) else none

/-- A text on several lines up to its closing quotes. A backslash at the end of a line passes over the
break and over all blanks and breaks that follow, which `skipping` says. -/
def longBasicBody (skipping : Bool) : List Char → Option (List Char × List Char)
  | [] => none
  | '"' :: '"' :: '"' :: '"' :: '"' :: rest => some (['"', '"'], rest)
  | '"' :: '"' :: '"' :: '"' :: rest => some (['"'], rest)
  | '"' :: '"' :: '"' :: rest => some ([], rest)
  | '\r' :: '\n' :: rest =>
    if skipping then longBasicBody true rest else cons (some '\n') (longBasicBody false rest)
  | '\\' :: 'u' :: a :: b :: c :: d :: rest =>
    cons (Text.hexChar? [a, b, c, d]) (longBasicBody false rest)
  | '\\' :: 'U' :: a :: b :: c :: d :: e :: f :: g :: h :: rest =>
    cons (Text.hexChar? [a, b, c, d, e, f, g, h]) (longBasicBody false rest)
  | '\\' :: c :: rest =>
    if endsLine (c :: rest) then longBasicBody true (c :: rest)
    else cons (escape? c) (longBasicBody false rest)
  | c :: rest =>
    if skipping && (c = '\n' || isBlank c) then longBasicBody true rest
    else if c = '\n' || isText c then cons (some c) (longBasicBody false rest)
    else none

/-- A break right after the opening quotes does not count. -/
def dropFirstBreak : List Char → List Char
  | '\r' :: '\n' :: rest => rest
  | '\n' :: rest => rest
  | text => text

/-- A string of any of the four kinds. -/
def string? (text : List Char) : Option (String × List Char) :=
  let body := match text with
    | '"' :: '"' :: '"' :: rest => longBasicBody false (dropFirstBreak rest)
    | '\'' :: '\'' :: '\'' :: rest => longLiteralBody (dropFirstBreak rest)
    | '"' :: rest => basicBody rest
    | '\'' :: rest => literalBody rest
    | _ => none
  body.map (fun (content, after) => (String.ofList content, after))

/-! ### Numbers -/

/-- Digits, with single underscores between them left out. -/
def digits? (isDigit : Char → Bool) (text : List Char) : Option (List Char) :=
  let groups := Text.splitOn '_' text
  if groups.all (fun group => !group.isEmpty && group.all isDigit) then some groups.flatten else none

/-- Digits without a zero in front of others. -/
def decimal? (text : List Char) : Option (List Char) :=
  (digits? Char.isDigit text).filter (fun digits =>
    digits.head? ≠ some '0' || digits.length = 1)

/-- Splits off a sign. -/
def sign : List Char → Bool × List Char
  | '-' :: rest => (true, rest)
  | '+' :: rest => (false, rest)
  | text => (false, text)

def integerOf (n : Int) : Option Item :=
  (int64? n).map .integer

def ofBase (base : Nat) (text : List Char) : Option Item := do
  let digits ← digits? (fun c => ((Text.digit? c).any (· < base))) text
  integerOf (← Text.natOfBase? base digits)

/-- A decimal integer. -/
def integer? (text : List Char) : Option Item := do
  let (negative, size) := sign text
  let n : Int := Decimal.natOfDigits (← decimal? size)
  integerOf (if negative then -n else n)

/-- The exponent of a float. -/
def exponent? (text : List Char) : Option Int := do
  let (negative, size) := sign text
  let n : Int := Decimal.natOfDigits (← digits? Char.isDigit size)
  return if negative then -n else n

/-- A float with a fraction, an exponent or both. One too great for a double is refused, but not one too
small. -/
def float? (text : List Char) : Option Item := do
  let (negative, size) := sign text
  let isE (c : Char) : Bool := c = 'e' || c = 'E'
  if !size.any (fun c => c = '.' || isE c) then none
  let mantissa := size.takeWhile (!isE ·)
  let exponent ← match size.dropWhile (!isE ·) with
    | [] => some 0
    | _ :: exponent => exponent? exponent
  let whole ← decimal? (mantissa.takeWhile (· ≠ '.'))
  let fraction ← match mantissa.dropWhile (· ≠ '.') with
    | [] => some []
    | _ :: fraction => digits? Char.isDigit fraction
  let x := Decimal.toFloat ⟨Decimal.natOfDigits (whole ++ fraction), exponent - fraction.length⟩
  if x.isInf && !negative then none
  else return .float (if negative then -x else x)

/-! ### Dates and times -/

/-- The date, if there is one, in the first ten characters. -/
def date? (text : List Char) : Option (List Char) := do
  match text.take 10 with
  | [y0, y1, y2, y3, '-', m0, m1, '-', d0, d1] =>
    let number (digits : List Char) : Option Nat :=
      if digits.all Char.isDigit then some (Decimal.natOfDigits digits) else none
    let year ← number [y0, y1, y2, y3]
    let month ← number [m0, m1]
    let day ← number [d0, d1]
    (Date.ofYmd? year month day).map Date.iso
  | _ => none

/-- Two digits of at most `limit`. -/
def twoDigits? (limit : Nat) (a b : Char) : Option (List Char) :=
  if a.isDigit && b.isDigit && Decimal.natOfDigits [a, b] ≤ limit then some [a, b] else none

/-- The text of a fraction of a second: nine digits at most, and no zeros at the end. -/
def fractionText (digits : List Char) : List Char :=
  let kept := ((digits.take 9).reverse.dropWhile (· = '0')).reverse
  if kept.isEmpty then [] else '.' :: kept

/-- The text of an offset from universal time. An offset of zero is positive. -/
def offset? : List Char → Option (List Char)
  | [] => some []
  | [z] => if z = 'Z' || z = 'z' then some ['Z'] else none
  | [s, a, b, ':', c, d] =>
    if s = '+' || s = '-' then do
      let hours ← twoDigits? 23 a b
      let minutes ← twoDigits? 59 c d
      let offset := hours ++ ':' :: minutes
      return (if offset.all (fun c => c = '0' || c = ':') then '+' else s) :: offset
    else none
  | _ => none

/-- The text of a time, with an offset if it may have one. -/
def time? (withOffset : Bool) (text : List Char) : Option (List Char) :=
  match text with
  | a :: b :: ':' :: c :: d :: ':' :: e :: f :: rest => do
    let hours ← twoDigits? 23 a b
    let minutes ← twoDigits? 59 c d
    let seconds ← twoDigits? 60 e f
    let (fraction, after) ← match rest with
      | '.' :: digits =>
        if digits.head?.any Char.isDigit then
          some (fractionText (digits.takeWhile Char.isDigit), digits.dropWhile Char.isDigit)
        else none
      | rest => some ([], rest)
    let offset ← if withOffset then offset? after else if after.isEmpty then some [] else none
    return hours ++ ':' :: minutes ++ ':' :: seconds ++ fraction ++ offset
  | _ => none

/-- A date, a time, or both with a letter or a blank between. -/
def datetime? (text : List Char) : Option Item :=
  let whole := match text.drop 10 with
    | [] => date? text
    | t :: rest =>
      if t = 'T' || t = 't' || t = ' ' then do
        return (← date? text) ++ 'T' :: (← time? true rest)
      else none
  (whole.orElse (fun _ => time? false text)).map (fun text => .datetime (String.ofList text))

/-! ### Words -/

/-- Characters of numbers, truth values, dates and times. -/
def isWordChar (c : Char) : Bool :=
  c.isAlphanum || c = '+' || c = '-' || c = '.' || c = '_' || c = ':'

/-- The value that a word stands for. -/
def ofWord? (word : List Char) : Option Item :=
  match String.ofList word with
  | "true" => some (.boolean true)
  | "false" => some (.boolean false)
  | "inf" | "+inf" => some (.float (1.0 / 0.0))
  | "-inf" => some (.float (-(1.0 / 0.0)))
  | "nan" | "+nan" | "-nan" => some (.float (0.0 / 0.0))
  | _ =>
    match word with
    | '0' :: 'x' :: digits => ofBase 16 digits
    | '0' :: 'o' :: digits => ofBase 8 digits
    | '0' :: 'b' :: digits => ofBase 2 digits
    | _ => (integer? word).orElse (fun _ => (float? word).orElse (fun _ => datetime? word))

/-- A word at the start of a text. A date takes a time after one blank with it. -/
def word? (text : List Char) : Option (Item × List Char) :=
  let word := text.takeWhile isWordChar
  let after := text.dropWhile isWordChar
  match date? word, word.length, after with
  | some _, 10, ' ' :: d :: rest =>
    if d.isDigit then
      let time := (d :: rest).takeWhile isWordChar
      (datetime? (word ++ ' ' :: time)).map (fun item => (item, (d :: rest).dropWhile isWordChar))
    else (ofWord? word).map (fun item => (item, after))
  | _, _, _ => (ofWord? word).map (fun item => (item, after))

end Folio.Toml
