import Folio.Proofs.Template.Machine
import Folio.Template.Render
import Mathlib.Data.Rat.Floor

/-! Exact results. An operator makes of two integers of the range what it makes of integers of any size, if that fits,
and reports an overflow if not. Powers whose exponent has more than thirty-two bits are floats instead. Quotient and
remainder belong together: they make up the dividend again, on the integers always and in an expression as long as the
product fits. -/
namespace Folio

/-! ### Division of integers of any size -/

section Division

variable {a b r : Int}

/-- Division that rounds down gives the floor of the rational quotient. -/
theorem fdiv_eq_floor (a b : Int) : a.fdiv b = ⌊(a / b : ℚ)⌋ := by
  have of_nonneg (a : Int) {b : Int} (nonneg : 0 ≤ b) : a.fdiv b = ⌊(a / b : ℚ)⌋ := by
    obtain ⟨d, rfl⟩ := Int.eq_ofNat_of_zero_le nonneg
    rw [Int.fdiv_eq_ediv_of_nonneg a nonneg, Int.cast_natCast, Rat.floor_intCast_div_natCast]
  rcases le_total 0 b with nonneg | nonpos
  · exact of_nonneg a nonneg
  · rw [← Int.neg_fdiv_neg, of_nonneg (-a) (Int.neg_nonneg_of_nonpos nonpos), Int.cast_neg, Int.cast_neg,
      neg_div_neg_eq]

/-- What division by an integer can leave over: zero, or an integer of its sign and closer to zero. -/
theorem leftover_iff (hb : b ≠ 0) :
    (r = 0 ∨ r.sign = b.sign) ∧ |r| < |b| ↔ 0 < b ∧ 0 ≤ r ∧ r < b ∨ b < 0 ∧ b < r ∧ r ≤ 0 := by
  rw [Int.abs_eq_natAbs, Int.abs_eq_natAbs]
  rcases lt_or_gt_of_ne hb with negative | positive
  · rw [Int.sign_eq_neg_one_of_neg negative, Int.sign_eq_neg_one_iff_neg]
    omega
  · rw [Int.sign_eq_one_of_pos positive, Int.sign_eq_one_iff_pos]
    omega

/-- Exactly one number that can be left over differs from the dividend by a multiple of the divisor. -/
theorem fmod_eq_iff (hb : b ≠ 0) : a.fmod b = r ↔ b ∣ a - r ∧ (r = 0 ∨ r.sign = b.sign) ∧ |r| < |b| := by
  rw [leftover_iff hb]
  rcases lt_or_gt_of_ne hb with negative | positive
  · constructor
    · rintro rfl
      obtain ⟨-, bounds⟩ := (Int.fdiv_fmod_unique' negative).1 ⟨rfl, rfl⟩
      exact ⟨Int.dvd_self_sub_fmod, .inr ⟨negative, bounds⟩⟩
    · rintro ⟨⟨q, whole⟩, ⟨never, -⟩ | ⟨-, bounds⟩⟩
      · omega
      · exact ((Int.fdiv_fmod_unique' negative).2 ⟨by omega, bounds⟩ : a.fdiv b = q ∧ a.fmod b = r).2
  · constructor
    · rintro rfl
      obtain ⟨-, bounds⟩ := (Int.fdiv_fmod_unique positive).1 ⟨rfl, rfl⟩
      exact ⟨Int.dvd_self_sub_fmod, .inl ⟨positive, bounds⟩⟩
    · rintro ⟨⟨q, whole⟩, ⟨-, bounds⟩ | ⟨never, -⟩⟩
      · exact ((Int.fdiv_fmod_unique positive).2 ⟨by omega, bounds⟩ : a.fdiv b = q ∧ a.fmod b = r).2
      · omega

end Division

/-- Every integer of the range is one of sixty-four bits. -/
theorem exists_toInt_eq {n : Int} (fits : -2 ^ 63 ≤ n ∧ n < 2 ^ 63) : ∃ i : Int64, i.toInt = n :=
  ⟨.ofInt n, Int64.toInt_ofInt_of_le fits.1 fits.2⟩

/-! ### Operators on integers of any size -/

namespace Operator

/-- An operator makes an integer of two integers of any size. Division rounds down, and the remainder has the sign of
the divisor. -/
def Yields : Operator → Int → Int → Int → Prop
  | .add, a, b, r => r = a + b
  | .sub, a, b, r => r = a - b
  | .mul, a, b, r => r = a * b
  | .floorDiv, a, b, r => b ≠ 0 ∧ r = ⌊(a / b : ℚ)⌋
  | .rem, a, b, r => b ≠ 0 ∧ b ∣ a - r ∧ (r = 0 ∨ r.sign = b.sign) ∧ |r| < |b|
  | .pow, a, b, r => 0 ≤ b ∧ r = a ^ b.toNat
  | .div, _, _, _ | .concat, _, _, _ => False

/-- The right operands with which an operator makes an integer of every left one. -/
def Accepts : Operator → Int → Prop
  | .add, _ | .sub, _ | .mul, _ => True
  | .floorDiv, b | .rem, b => b ≠ 0
  | .pow, b => 0 ≤ b
  | .div, _ | .concat, _ => False

theorem existsUnique_yields {op : Operator} {b : Int} (accepts : op.Accepts b) (a : Int) : ∃! r, op.Yields a b r := by
  cases op with
  | add | sub | mul => exact existsUnique_eq
  | floorDiv => exact ⟨_, ⟨accepts, rfl⟩, fun r result => result.2⟩
  | rem => exact ⟨_, ⟨accepts, (fmod_eq_iff accepts).1 rfl⟩, fun r result => ((fmod_eq_iff accepts).2 result.2).symm⟩
  | pow => exact ⟨_, ⟨accepts, rfl⟩, fun r result => result.2⟩
  | div | concat => exact accepts.elim

/-- The answer of an operation is an integer, or the error where that is out of range. -/
structure IsExact (answer : Except RenderError Value) (n : Int) (overflow : RenderError) : Prop where
  ok : ∀ i : Int64, i.toInt = n → answer = .ok (.int i)
  error : n < -2 ^ 63 ∨ 2 ^ 63 ≤ n → answer = .error overflow

theorem isExact_int64? (n : Int) (overflow : RenderError) :
    IsExact ((int64? n).elim (.error overflow) (fun i => .ok (.int i))) n overflow where
  ok i value := by rw [int64?_eq_some_iff.2 value, Option.elim_some]
  error beyond := by rw [int64?_eq_none_iff.2 beyond, Option.elim_none]

/-- An answer that is an integer is the exact one. -/
theorem IsExact.toInt_eq {answer : Except RenderError Value} {n : Int} {overflow : RenderError} {i : Int64}
    (exact : IsExact answer n overflow) (h : answer = .ok (.int i)) : i.toInt = n := by
  by_cases fits : -2 ^ 63 ≤ n ∧ n < 2 ^ 63
  · obtain ⟨j, rfl⟩ := exists_toInt_eq fits
    have same := (exact.ok j rfl).symm.trans h
    cases same
    rfl
  · have failed := (exact.error (by omega)).symm.trans h
    cases failed

theorem apply_ints (op : Operator) (a b : Int64) : op.apply (.int a) (.int b) = op.ofInts a b := by
  cases op <;> rfl

section Ints

variable {op : Operator} {a b : Int64} {r : Int}

theorem isExact_floorDiv (nonzero : b ≠ 0) :
    IsExact (Operator.floorDiv.ofInts a b) (a.toInt.fdiv b.toInt) (.overflow .floorDiv) := by
  rw [ofInts, if_neg nonzero]
  exact isExact_int64? ..

theorem isExact_rem (nonzero : b ≠ 0) (divided : ¬(a = Int64.minValue ∧ b = -1)) :
    IsExact (Operator.rem.ofInts a b) (a.toInt.fmod b.toInt) (.overflow .rem) := by
  rw [ofInts, if_neg nonzero, ofInts.remainder, if_neg divided]
  exact isExact_int64? ..

theorem ofInts_pow_of_lt (nonneg : 0 ≤ b.toInt) (short : b.toInt < 2 ^ 32) : Operator.pow.ofInts a b =
    (int64? (a.toInt ^ b.toInt.toNat)).elim (.error (.overflow .pow)) (fun i => .ok (.int i)) := by
  have guard : (0 ≤ b.toInt && b.toInt < 0x100000000) = true := by
    simp only [Bool.and_eq_true, decide_eq_true_eq]
    omega
  rw [ofInts, if_pos guard, power?_eq]

theorem ofInts_pow_of_le (long : 2 ^ 32 ≤ b.toInt) :
    Operator.pow.ofInts a b = .ok (.float ((floatOfInt a.toInt).pow (floatOfInt b.toInt))) := by
  have guard : ¬(0 ≤ b.toInt && b.toInt < 0x100000000) = true := by
    simp only [Bool.and_eq_true, decide_eq_true_eq]
    omega
  rw [ofInts, if_neg guard]

/-- The operators are exact, apart from long powers and from the one remainder whose quotient does not fit. -/
theorem isExact_ofInts (result : op.Yields a.toInt b.toInt r) (short : op = .pow → b.toInt < 2 ^ 32)
    (divided : ¬(op = .rem ∧ a = Int64.minValue ∧ b = -1)) : IsExact (op.ofInts a b) r (.overflow op) := by
  cases op with
  | add | sub | mul =>
    cases result
    exact isExact_int64? ..
  | floorDiv =>
    obtain ⟨nonzero, rfl⟩ := result
    rw [← fdiv_eq_floor]
    exact isExact_floorDiv fun zero => nonzero (congrArg Int64.toInt zero)
  | rem =>
    obtain ⟨nonzero, leftover⟩ := result
    rw [← (fmod_eq_iff nonzero).2 leftover]
    exact isExact_rem (fun zero => nonzero (congrArg Int64.toInt zero)) fun least => divided ⟨rfl, least⟩
  | pow =>
    obtain ⟨nonneg, rfl⟩ := result
    rw [ofInts_pow_of_lt nonneg (short rfl)]
    exact isExact_int64? ..
  | div | concat => exact result.elim

end Ints

/-! ### Exact arithmetic -/

/-- The arithmetic of integers is exact or reports an overflow. Each operator makes one integer of two integers of any
size. On the integers of the range the answer is that integer, if it fits, and an overflow if not, also as a machine
computes it by checked operations and corrections; and a minus in front does the same. Powers with exponents that have
more than thirty-two bits are floats. Nothing is said on the one remainder whose quotient does not fit. -/
theorem isExact_apply :
    (∀ (op : Operator) (b : Int), op.Accepts b → ∀ a, ∃! r, op.Yields a b r) ∧
    (∀ (op : Operator) (a b : Int64), Machine.ofInts op a b = .ok (op.apply (.int a) (.int b))) ∧
    (∀ (op : Operator) (a b : Int64) (r : Int), op.Yields a.toInt b.toInt r → (op = .pow → b.toInt < 2 ^ 32) →
      ¬(op = .rem ∧ a = Int64.minValue ∧ b = -1) → IsExact (op.apply (.int a) (.int b)) r (.overflow op)) ∧
    (∀ a b : Int64, 2 ^ 32 ≤ b.toInt → Operator.pow.apply (.int a) (.int b) =
      .ok (.float ((floatOfInt a.toInt).pow (floatOfInt b.toInt)))) ∧
    ∀ a : Int64, IsExact (Value.negate (.int a)) (-a.toInt) .negationOverflow := by
  refine ⟨fun op b accepts a => existsUnique_yields accepts a, fun op a b => ?_,
    fun op a b r result short divided => ?_, fun a b long => ofInts_pow_of_le long, fun a => isExact_int64? ..⟩
  · rw [apply_ints]
    exact Machine.ofInts_eq op a b
  · rw [apply_ints]
    exact isExact_ofInts result short divided

/-- A power that is the least integer, and the quotient of the least integer that does not fit. -/
theorem isExact_apply_of_least :
    Operator.pow.apply (.int (-2)) (.int 63) = .ok (.int Int64.minValue) ∧
      Operator.floorDiv.apply (.int Int64.minValue) (.int (-1)) = .error (.overflow .floorDiv) := by
  have exact := isExact_apply.2.2.1
  refine ⟨(exact .pow (-2) 63 (-2 ^ 63) ⟨by decide, by decide⟩ (fun _ => by decide) (by simp)).ok _ rfl, ?_⟩
  have quotient : Operator.floorDiv.Yields (Int64.minValue.toInt) (Int64.toInt (-1)) (2 ^ 63) :=
    ⟨by decide, by rw [← fdiv_eq_floor]; rfl⟩
  exact (exact .floorDiv Int64.minValue (-1) (2 ^ 63) quotient nofun (by simp)).error (.inr le_rfl)

/-- One to the power of an exponent with thirty-three bits is one, but the answer is no integer. -/
theorem not_isExact_of_long_power : Operator.pow.Yields (Int64.toInt 1) (Int64.toInt 4294967296) 1 ∧
    ¬IsExact (Operator.pow.apply (.int 1) (.int 4294967296)) 1 (.overflow .pow) := by
  refine ⟨⟨by decide, (one_pow _).symm⟩, fun exact => ?_⟩
  have integer := exact.ok 1 rfl
  rw [apply_ints, ofInts_pow_of_le (by decide)] at integer
  cases integer

end Operator

/-! ### Quotient and remainder -/

/-- The quotient times the divisor with the remainder added. -/
def Expr.recomposed (left right : Expr) : Expr :=
  .binary .add (.binary .mul (.binary .floorDiv left right) right) (.binary .rem left right)

namespace Operator

variable {a b q r : Int64}

theorem fdiv_of_apply (quotient : Operator.floorDiv.apply (.int a) (.int b) = .ok (.int q)) :
    b ≠ 0 ∧ q.toInt = a.toInt.fdiv b.toInt := by
  have nonzero : b ≠ 0 := by
    rintro rfl
    cases quotient
  exact ⟨nonzero, (isExact_floorDiv nonzero).toInt_eq quotient⟩

theorem fmod_of_apply (rest : Operator.rem.apply (.int a) (.int b) = .ok (.int r)) :
    r.toInt = a.toInt.fmod b.toInt := by
  have nonzero : b ≠ 0 := by
    rintro rfl
    cases rest
  have divided : ¬(a = Int64.minValue ∧ b = -1) := by
    rintro ⟨rfl, rfl⟩
    cases rest
  exact (isExact_rem nonzero divided).toInt_eq rest

end Operator

namespace Template

open Operator (isExact_int64?)

variable {setting : Setting} {jumps : Jumps} {calls : Nat} {context : Context} {left right : Expr} {a b q r : Int64}

/-- The expression makes up the dividend again, unless the product does not fit. -/
theorem eval_recomposed (dividend : eval setting jumps calls context left = .ok (.int a))
    (divisor : eval setting jumps calls context right = .ok (.int b))
    (quotient : Operator.floorDiv.apply (.int a) (.int b) = .ok (.int q))
    (rest : Operator.rem.apply (.int a) (.int b) = .ok (.int r))
    (whole : q.toInt * b.toInt + r.toInt = a.toInt) :
    eval setting jumps calls context (.recomposed left right) =
      if -2 ^ 63 ≤ a.toInt - r.toInt ∧ a.toInt - r.toInt < 2 ^ 63 then .ok (.int a) else .error (.overflow .mul) := by
  have product : Operator.IsExact (Operator.mul.apply (.int q) (.int b)) (q.toInt * b.toInt) (.overflow .mul) :=
    isExact_int64? ..
  have evaluated : eval setting jumps calls context (.recomposed left right) =
      (Operator.mul.apply (.int q) (.int b)).bind fun p => Operator.add.apply p (.int r) := by
    simp only [Expr.recomposed, eval, dividend, divisor, quotient, rest, bind, Except.bind]
  rw [evaluated]
  split
  · rename_i fits
    obtain ⟨p, hp⟩ := exists_toInt_eq fits
    have sum : Operator.IsExact (Operator.add.apply (.int p) (.int r)) (p.toInt + r.toInt) (.overflow .add) :=
      isExact_int64? ..
    rw [product.ok p (by omega)]
    exact sum.ok a (by omega)
  · rename_i beyond
    rw [product.error (by omega)]
    rfl

end Template

namespace Operator

/-- Quotient and remainder belong together. Where both are integers they make up the dividend, and the remainder is zero
or has the sign of the divisor, and is smaller. The expression that puts them together again has the dividend as its
value, unless the dividend less the remainder is out of range: then the product overflows. -/
theorem eq_mul_add_of_apply {a b q r : Int64} (quotient : Operator.floorDiv.apply (.int a) (.int b) = .ok (.int q))
    (rest : Operator.rem.apply (.int a) (.int b) = .ok (.int r)) :
    a.toInt = q.toInt * b.toInt + r.toInt ∧ (r.toInt = 0 ∨ r.toInt.sign = b.toInt.sign) ∧ |r.toInt| < |b.toInt| ∧
    ∀ setting jumps calls context left right, Template.eval setting jumps calls context left = .ok (.int a) →
      Template.eval setting jumps calls context right = .ok (.int b) →
      Template.eval setting jumps calls context (.recomposed left right) =
        if -2 ^ 63 ≤ a.toInt - r.toInt ∧ a.toInt - r.toInt < 2 ^ 63 then .ok (.int a)
        else .error (.overflow .mul) := by
  obtain ⟨nonzero, floor⟩ := fdiv_of_apply quotient
  have leftover := fmod_of_apply rest
  obtain ⟨-, sign, small⟩ := (fmod_eq_iff (Machine.toInt_ne_zero nonzero)).1 leftover.symm
  have whole : q.toInt * b.toInt + r.toInt = a.toInt := by
    rw [floor, leftover]
    exact Int.fdiv_mul_add_fmod ..
  exact ⟨whole.symm, sign, small, fun _ _ _ _ _ _ dividend divisor =>
    Template.eval_recomposed dividend divisor quotient rest whole⟩

/-- Three above the least integer, the product is just in range. -/
theorem eq_mul_add_of_next_to_least :
    Operator.floorDiv.apply (.int (Int64.minValue + 3)) (.int 3) = .ok (.int (-3074457345618258602)) ∧
      Operator.rem.apply (.int (Int64.minValue + 3)) (.int 3) = .ok (.int 1) ∧
      Template.eval (.alone .english) (.within (.alone .english) 0) 0 (.ofNamespace .empty)
        (.recomposed (.literal (.int (Int64.minValue + 3))) (.literal (.int 3))) = .ok (.int (Int64.minValue + 3)) :=
  ⟨rfl, rfl, ((eq_mul_add_of_apply rfl rfl).2.2.2 _ _ _ _ _ _ rfl rfl).trans (if_pos (by decide))⟩

/-- The least integer divided by three leaves one over, so that three times the quotient is out of range. -/
theorem not_recomposed_of_least :
    Operator.floorDiv.apply (.int Int64.minValue) (.int 3) = .ok (.int (-3074457345618258603)) ∧
      Operator.rem.apply (.int Int64.minValue) (.int 3) = .ok (.int 1) ∧
      Template.renderText "\x7b\x7b (a // b) * b + a % b \x7d\x7d"
        (.ofList [("a", .int Int64.minValue), ("b", .int 3)]) .english = .error (.overflow .mul) :=
  ⟨rfl, rfl, by decide +kernel⟩

end Operator

end Folio
