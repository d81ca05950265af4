import Folio.Text.Digit
import Folio.Value.Number

/-! The values that scalars without quotes stand for. -/
namespace Folio.Yaml

/-- Splits off a sign. -/
def sign : List Char → Bool × List Char
  | '-' :: rest => (true, rest)
  | '+' :: rest => (false, rest)
  | text => (false, text)

/-- Digits with a zero in front of others. They are no number. -/
def isPadded (text : List Char) : Bool :=
  let digits := (sign text).2
  digits.head? = some '0' && 1 < digits.length && digits.all Char.isDigit

/-- The size of an integer, in base sixteen, eight, two or ten. -/
def magnitude? : List Char → Option Nat
  | '0' :: 'x' :: digits => Text.natOfBase? 16 digits
  | '0' :: 'o' :: digits => Text.natOfBase? 8 digits
  | '0' :: 'b' :: digits => Text.natOfBase? 2 digits
  | digits => Text.natOfBase? 10 digits

def integer? (text : List Char) : Option Int :=
  let (negative, size) := sign text
  if isPadded text then none
  else (magnitude? size).map (fun n => if negative then -n else n)

/-- A float. Infinities and not-a-number have words that start with a point; digits beyond the range of
doubles are no float. -/
def float? (text : List Char) : Option Float :=
  match String.ofList text with
  | ".inf" | ".Inf" | ".INF" | "+.inf" | "+.Inf" | "+.INF" => some (1.0 / 0.0)
  | "-.inf" | "-.Inf" | "-.INF" => some (-(1.0 / 0.0))
  | ".nan" | ".NaN" | ".NAN" => some (0.0 / 0.0)
  | _ => if isPadded text then none else (Decimal.float? text).filter Float.isFinite

/-- What a scalar stands for if it is no integer. -/
def floatOrString (text : List Char) : Value :=
  (float? text).elim (.string (String.ofList text)) .float

/-- The value of a plain scalar. An integer of up to 128 bits has to be in the range of values, while a
longer one counts as a float. -/
def plain? (text : List Char) : Option Value :=
  match String.ofList text with
  | "" | "~" | "null" | "Null" | "NULL" => some .null
  | "true" | "True" | "TRUE" => some (.bool true)
  | "false" | "False" | "FALSE" => some (.bool false)
  | _ =>
    match integer? text with
    | some n => if -0x80000000000000000000000000000000 ≤ n && n < 0x100000000000000000000000000000000 then
        Value.ofInt? n
      else some (floatOrString text)
    | none => some (floatOrString text)

end Folio.Yaml
