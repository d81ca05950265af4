import Folio.Decimal.Text
import Mathlib.Algebra.Group.Nat.Defs
import Mathlib.Data.List.Induction

/-! Numbers and their digits. A number reads back from its digits, however many zeros stand in front, and as many digits
as a number is written with are the digits it was read from. -/
namespace Folio

theorem isDigit_iff {c : Char} : c.isDigit = true ↔ 48 ≤ c.toNat ∧ c.toNat ≤ 57 := by
  change (decide (48 ≤ c.val) && decide (c.val ≤ 57)) = true ↔ _
  simp only [Bool.and_eq_true, decide_eq_true_eq, UInt32.le_iff_toNat_le]
  rfl

namespace Decimal

variable {digits other : List Char}

theorem natOfDigits_concat (digits : List Char) (c : Char) :
    natOfDigits (digits ++ [c]) = 10 * natOfDigits digits + (c.toNat - 48) :=
  List.foldl_append

theorem natOfDigits_lt (h : ∀ c ∈ digits, c.isDigit = true) : natOfDigits digits < 10 ^ digits.length := by
  induction digits using List.reverseRecOn with
  | nil => decide
  | append_singleton digits c ih =>
    have bounds := isDigit_iff.1 (h c (by simp))
    have below := ih fun d hd => h d (List.mem_append_left _ hd)
    rw [natOfDigits_concat, List.length_append, List.length_singleton, Nat.pow_succ]
    omega

/-- As many digits of the same number are the same digits. -/
theorem eq_of_natOfDigits (h : ∀ c ∈ digits, c.isDigit = true) (ho : ∀ c ∈ other, c.isDigit = true)
    (length : digits.length = other.length) (value : natOfDigits digits = natOfDigits other) : digits = other := by
  induction digits using List.reverseRecOn generalizing other with
  | nil => exact (List.length_eq_zero_iff.1 length.symm).symm
  | append_singleton digits c ih =>
    rcases List.eq_nil_or_concat other with rfl | ⟨other, d, rfl⟩
    · simp at length
    rw [List.concat_eq_append] at ho length value ⊢
    have hc := isDigit_iff.1 (h c (by simp))
    have hd := isDigit_iff.1 (ho d (by simp))
    rw [natOfDigits_concat, natOfDigits_concat] at value
    have last : c = d := Char.toNat_inj.1 (by omega)
    rw [last, ih (fun c hc => h c (List.mem_append_left _ hc)) (fun c hc => ho c (List.mem_append_left _ hc))
      (by simpa using length) (by omega)]

theorem natOfDigits_eq (digits : List Char) : natOfDigits digits = Nat.ofDigitChars 10 digits 0 :=
  Nat.ofDigitChars_eq_foldl.symm

theorem natOfDigits_toDigits (n : Nat) : natOfDigits (Nat.toDigits 10 n) = n :=
  (natOfDigits_eq _).trans Nat.ofDigitChars_ten_toDigits

theorem natOfDigits_padded (width n : Nat) : natOfDigits (padded width n) = n := by
  rw [natOfDigits_eq, padded, zeros, Nat.ofDigitChars_append, Nat.ofDigitChars_replicate_zero, Nat.mul_zero,
    Nat.ofDigitChars_ten_toDigits]

theorem isDigit_of_mem_padded {width n : Nat} {c : Char} (h : c ∈ padded width n) : c.isDigit = true := by
  rcases List.mem_append.1 h with zero | digit
  · rw [(List.mem_replicate.1 zero).2]
    decide
  · exact Nat.isDigit_of_mem_toDigits (by decide) (by decide) digit

theorem length_padded {width n : Nat} (positive : 0 < width) (h : n < 10 ^ width) :
    (padded width n).length = width := by
  have fits := (Nat.length_toDigits_le_iff (by decide) positive).2 h
  rw [padded, zeros, List.length_append, List.length_replicate]
  omega

/-- A numeral is its number written with as many digits. -/
theorem padded_natOfDigits (h : ∀ c ∈ digits, c.isDigit = true) (positive : 0 < digits.length) :
    padded digits.length (natOfDigits digits) = digits :=
  eq_of_natOfDigits (fun _ => isDigit_of_mem_padded) h (length_padded positive (natOfDigits_lt h))
    (natOfDigits_padded ..)

end Decimal

end Folio
