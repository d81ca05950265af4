import Folio.Value.Basic

/-! Integers as values. -/
namespace Folio

/-- An integer that fits the range of values. -/
def int64? (n : Int) : Option Int64 :=
  if -0x8000000000000000 ≤ n && n < 0x8000000000000000 then some (Int64.ofInt n) else none

/-- The nearest double. -/
def floatOfInt (n : Int) : Float :=
  let size := Decimal.toFloat ⟨n.natAbs, 0⟩
  if n < 0 then -size else size

/-- An integer as written in data. One beyond the range of integers, up to sixty-four unsigned bits,
becomes a float, and any other has no value. -/
def Value.ofInt? (n : Int) : Option Value :=
  match int64? n with
  | some i => some (.int i)
  | none => if 0 ≤ n && n < 0x10000000000000000 then some (.float (floatOfInt n)) else none

end Folio
