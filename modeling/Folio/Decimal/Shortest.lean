/-! The shortest decimal that reads back as a given binary floating-point number. The numbers that
round to a double form an interval around it; the shortest decimal is the coarsest decimal grid's
point in that interval, and among two such points the one nearer to the double. -/
namespace Folio

/-- The number `digits * 10 ^ exponent`. -/
structure Decimal where
  digits : Nat
  exponent : Int
  deriving DecidableEq, Repr

/-- The positive number `mantissa * 2 ^ exponent` as a double holds it. The double below is only half
as far away as the one above when `narrow` is set. -/
structure Binary where
  mantissa : Nat
  exponent : Int
  narrow : Bool
  deriving DecidableEq, Repr

namespace Binary

/-- Reads the fields of a finite double other than zero; the sign is left out. -/
def ofBits (bits : UInt64) : Binary :=
  let fraction := (bits &&& 0xFFFFFFFFFFFFF).toNat
  let biased := ((bits >>> 52) &&& 0x7FF).toNat
  if biased = 0 then ⟨fraction, -1074, false⟩
  else ⟨fraction + 0x10000000000000, biased - 1075, fraction = 0 && 1 < biased⟩

/-- `n * 2 ^ e` over the common denominator of all quarters of the last place. -/
def scaled (b : Binary) (n : Nat) : Nat :=
  n * Nat.pow 2 (b.exponent - 2).toNat

def denominator (b : Binary) : Nat :=
  Nat.pow 2 (2 - b.exponent).toNat

/-- The number itself, in units of `1 / denominator`. -/
def value (b : Binary) : Nat :=
  b.scaled (4 * b.mantissa)

/-- The lower end of the numbers that round to `b`. -/
def lower (b : Binary) : Nat :=
  b.scaled (4 * b.mantissa - if b.narrow then 1 else 2)

/-- The upper end of the numbers that round to `b`. -/
def upper (b : Binary) : Nat :=
  b.scaled (4 * b.mantissa + 2)

/-- The number `num / den` rounds to `b`; the ends of the interval do when the mantissa is even. -/
def admits (b : Binary) (num den : Nat) : Bool :=
  let x := num * b.denominator
  if b.mantissa % 2 = 0 then b.lower * den ≤ x && x ≤ b.upper * den
  else b.lower * den < x && x < b.upper * den

/-- The number of digits before the decimal point, which is negative when zeros follow the point. No
double but zero is below `10 ^ (-400)`. -/
def magnitude (b : Binary) : Int :=
  ((Nat.toDigits 10 (b.value * Nat.pow 10 400 / b.denominator)).length : Int) - 400

/-- The point of the grid `10 ^ exponent` that stands for `b`, if one does. Of the two neighbours of
`b` the nearer one is taken, and the upper one of two equally near. -/
def onGrid? (b : Binary) (exponent : Int) : Option Decimal :=
  let num := Nat.pow 10 exponent.toNat
  let den := Nat.pow 10 (-exponent).toNat
  let below := b.value * den / (b.denominator * num)
  let above := below + 1
  let down := b.value * den - below * num * b.denominator
  let up := above * num * b.denominator - b.value * den
  match b.admits (below * num) den, b.admits (above * num) den with
  | true, true => some ⟨if down < up then below else above, exponent⟩
  | true, false => some ⟨below, exponent⟩
  | false, true => some ⟨above, exponent⟩
  | false, false => none

/-- The first hit on the grids of one to seventeen significant digits. Seventeen always suffice. -/
def shortest (b : Binary) : Decimal :=
  ((List.range 17).findSome? (fun (n : Nat) => b.onGrid? (b.magnitude - n - 1))).getD ⟨0, 0⟩

end Binary

end Folio
