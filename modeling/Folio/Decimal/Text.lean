import Folio.Decimal.Shortest

/-! Written numbers. A double is written with its shortest digits, always positionally, without a
fraction when it is whole; the reading of digits with an exponent rounds correctly. -/
namespace Folio.Decimal

def zeros (n : Nat) : List Char :=
  List.replicate n '0'

/-- A natural number with at least `width` digits. -/
def padded (width n : Nat) : List Char :=
  let digits := Nat.toDigits 10 n
  zeros (width - digits.length) ++ digits

/-- The digits of a decimal without an exponent. Zeros at the end of a fraction are not written. -/
def positional (d : Decimal) : List Char :=
  if 0 ≤ d.exponent then Nat.toDigits 10 d.digits ++ zeros d.exponent.toNat
  else
    let places := (-d.exponent).toNat
    let digits := padded (places + 1) d.digits
    let whole := digits.take (digits.length - places)
    let fraction := (digits.drop (digits.length - places)).reverse.dropWhile (· = '0')
    if fraction.isEmpty then whole else whole ++ '.' :: fraction.reverse

/-- The text of a double. Not-a-number is written without a sign. -/
def ofFloat (x : Float) : List Char :=
  if x.isNaN then "NaN".toList
  else
    let bits := x.toBits
    let sign := if bits >>> 63 = 1 then ['-'] else []
    let size := bits &&& 0x7FFFFFFFFFFFFFFF
    if size = 0x7FF0000000000000 then sign ++ "inf".toList
    else if size = 0 then sign ++ ['0']
    else sign ++ (Binary.ofBits size).shortest.positional

/-- The double nearest to `digits * 10 ^ exponent`. Numbers out of range become infinite or zero
without their powers being computed. -/
def toFloat (d : Decimal) : Float :=
  let size : Int := (Nat.toDigits 10 d.digits).length
  if d.digits = 0 || d.exponent + size < -400 then 0.0
  else if 400 < d.exponent + size then 1.0 / 0.0
  else Float.ofScientific d.digits (d.exponent < 0) d.exponent.natAbs

/-- The value of a digit string in base ten. -/
def natOfDigits (digits : List Char) : Nat :=
  digits.foldl (fun n c => 10 * n + (c.toNat - '0'.toNat)) 0

/-- The double written as `whole.fraction`. -/
def floatOfDigits (whole fraction : List Char) : Float :=
  toFloat ⟨natOfDigits (whole ++ fraction), -fraction.length⟩

/-- Reads digits with an optional point and an optional exponent, such as `1.5e-3`. A digit has to stand
before or after the point. -/
def unsignedFloat? (text : List Char) : Option Float :=
  let whole := text.takeWhile Char.isDigit
  let (fraction, after) := match text.dropWhile Char.isDigit with
    | '.' :: rest => (rest.takeWhile Char.isDigit, rest.dropWhile Char.isDigit)
    | rest => ([], rest)
  if whole.isEmpty && fraction.isEmpty then none
  else (exponent? after).map (fun e => toFloat ⟨natOfDigits (whole ++ fraction), e - fraction.length⟩)
where
  exponent? : List Char → Option Int
    | [] => some 0
    | e :: rest =>
      if e ≠ 'e' ∧ e ≠ 'E' then none
      else match rest with
        | '-' :: digits => (magnitude? digits).map (fun n => -n)
        | '+' :: digits => magnitude? digits
        | digits => magnitude? digits
  magnitude? (digits : List Char) : Option Int :=
    if digits.isEmpty || !digits.all Char.isDigit then none else some (natOfDigits digits)

/-- Reads a float with an optional sign. -/
def float? : List Char → Option Float
  | '-' :: rest => (unsignedFloat? rest).map (fun x => -x)
  | '+' :: rest => unsignedFloat? rest
  | text => unsignedFloat? text

/-- Reads digits with an optional minus in front. -/
def int? : List Char → Option Int
  | '-' :: digits => if isNumeral digits then some (-natOfDigits digits) else none
  | digits => if isNumeral digits then some (natOfDigits digits) else none
where
  isNumeral (digits : List Char) : Bool := !digits.isEmpty && digits.all Char.isDigit

/-- The text of a signed whole number. -/
def ofInt (n : Int) : List Char :=
  if n < 0 then '-' :: Nat.toDigits 10 n.natAbs else Nat.toDigits 10 n.natAbs

end Folio.Decimal
