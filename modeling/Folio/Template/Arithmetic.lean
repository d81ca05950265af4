import Folio.Template.RenderError
import Folio.Value.Equality
import Folio.Value.Number

/-! The operators of expressions on values. Integers are computed exactly and have to fit their range;
a float among the operands makes the result a float. -/
namespace Folio

/-- A power, if it fits. A base of two or more in size leaves the range before the exponent
sixty-four, and the powers of a smaller base alternate. -/
def power? (a : Int) (n : Nat) : Option Int64 :=
  if n < 64 then int64? (a.pow n)
  else if a.natAbs ≤ 1 then int64? (a.pow (64 + n % 2))
  else none

namespace Operator

/-- Integers under an operator. Division is of floats, and so are powers whose exponent is negative or
has more than thirty-two bits. -/
def ofInts (op : Operator) (a b : Int64) : Except RenderError Value :=
  let fit (n : Option Int64) : Except RenderError Value :=
    n.elim (.error (.overflow op)) (fun n => .ok (.int n))
  match op with
  | .add => fit (int64? (a.toInt + b.toInt))
  | .sub => fit (int64? (a.toInt - b.toInt))
  | .mul => fit (int64? (a.toInt * b.toInt))
  | .div =>
    if b = 0 then .error .divisionByZero else .ok (.float (floatOfInt a.toInt / floatOfInt b.toInt))
  | .floorDiv =>
    if b = 0 then .error .divisionByZero else fit (int64? (a.toInt.fdiv b.toInt))
  | .rem => if b = 0 then .error .divisionByZero else remainder fit
  | .pow =>
    if 0 ≤ b.toInt && b.toInt < 0x100000000 then fit (power? a.toInt b.toInt.toNat)
    else .ok (.float ((floatOfInt a.toInt).pow (floatOfInt b.toInt)))
  | .concat => .ok (.string ((Value.int a).text ++ (Value.int b).text))
where
  /-- The remainder takes the sign of the divisor. It exists only where the quotient fits. -/
  remainder (fit : Option Int64 → Except RenderError Value) : Except RenderError Value :=
    if a = Int64.minValue ∧ b = -1 then fit none else fit (int64? (a.toInt.fmod b.toInt))

def ofFloats (op : Operator) (a b : Float) : Except RenderError Value :=
  match op with
  | .add => .ok (.float (a + b))
  | .sub => .ok (.float (a - b))
  | .mul => .ok (.float (a * b))
  | .div => if b == 0 then .error .divisionByZero else .ok (.float (a / b))
  | .floorDiv => if b == 0 then .error .divisionByZero else .ok (.float (a / b).floor)
  | .rem => if b == 0 then .error .divisionByZero else .ok (.float (a - b * (a / b).floor))
  | .pow => .ok (.float (a.pow b))
  | .concat => .ok (.string ((Value.float a).text ++ (Value.float b).text))

/-- An operator on values of any kind. Sums of texts and sequences append, and everything has a text
that can be joined to another. -/
def apply (op : Operator) (left right : Value) : Except RenderError Value :=
  match op, left, right with
  | .concat, a, b => .ok (.string (a.text ++ b.text))
  | .add, .string a, .string b => .ok (.string (a ++ b))
  | .add, .seq a, .seq b => .ok (.seq (a ++ b))
  | op, .int a, .int b => op.ofInts a b
  | op, .int a, .float b => op.ofFloats (floatOfInt a.toInt) b
  | op, .float a, .int b => op.ofFloats a (floatOfInt b.toInt)
  | op, .float a, .float b => op.ofFloats a b
  | op, a, b => .error (.unsupportedOperands op a.kind b.kind)

end Operator

namespace Comparison

/-- A comparison or a test of membership. -/
def apply (op : Comparison) (left right : Value) : Except RenderError Bool :=
  match op with
  | .eq => .ok (left.equal right)
  | .ne => .ok (!left.equal right)
  | .lt => ordered (· = .lt)
  | .le => ordered (· ≠ .gt)
  | .gt => ordered (· = .gt)
  | .ge => ordered (· ≠ .lt)
  | .isIn => .ok (right.contains left)
  | .notIn => .ok (!right.contains left)
where
  ordered (holds : Ordering → Bool) : Except RenderError Bool :=
    (left.order? right).elim (.error (.notComparable left.kind right.kind))
      (fun ordering => .ok (holds ordering))

end Comparison

namespace Value

def negate : Value → Except RenderError Value
  | .int i => (int64? (-i.toInt)).elim (.error .negationOverflow) (fun n => .ok (.int n))
  | .float x => .ok (.float (-x))
  | other => .error (.notNegatable other.kind)

/-- The integers from `start` on, `step` apart, short of `stop`. -/
def progression (start stop step : Int64) : List Value :=
  let span := if 0 < step.toInt then stop.toInt - start.toInt else start.toInt - stop.toInt
  let count := ((span + step.toInt.natAbs - 1) / step.toInt.natAbs).toNat
  (List.range count).map (fun (k : Nat) => .int (Int64.ofInt (start.toInt + k * step.toInt)))

/-- The integer arguments of a range. -/
def integers (args : List Value) : Except RenderError (List Int64) :=
  args.mapM (fun
    | .int i => .ok i
    | other => .error (.rangeOfKind other.kind))

/-- The sequence that `range` makes of a stop, a start and a stop, or those and a step. -/
def range (args : List Value) : Except RenderError Value := do
  let (start, stop, step) ←
    match ← integers args with
    | [stop] => .ok ((0 : Int64), stop, (1 : Int64))
    | [start, stop] => .ok (start, stop, 1)
    | [start, stop, step] => .ok (start, stop, step)
    | _ => .error .rangeArguments
  if step = 0 then .error .rangeStep
  else .ok (.seq (progression start stop step))

end Value

end Folio
