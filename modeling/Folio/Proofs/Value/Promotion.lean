import Folio.Template.Arithmetic
import Folio.Template.Filter
import Folio.Template.Render
import Mathlib.Data.List.Forall2

/-! Equality of sequences. Templates compare an integer and a float as floats, but the items of two sequences by kind
and content. Sequences whose items are equal pairwise, at any depth, are equal themselves, found in sequences that hold
the other and equal to it for the tests, exactly if nowhere in them an integer stands against a float. -/
namespace Folio

/-! ### Floats -/

/-- The order of two floats is that of the two the other way round, reversed. -/
theorem unpacked_compare_swap (a b : Float.Model.UnpackedFloat) : (a.compare b).map .swap = b.compare a := by
  cases a with
  | notANumber => cases b <;> rfl
  | infinity s =>
    cases b with
    | infinity t => cases s <;> cases t <;> rfl
    | _ => cases s <;> rfl
  | zero =>
    cases b with
    | infinity t => cases t <;> rfl
    | finite t => cases t <;> rfl
    | _ => rfl
  | finite s m e =>
    cases b with
    | notANumber => cases s <;> rfl
    | infinity t => cases s <;> cases t <;> rfl
    | zero => cases s <;> rfl
    | finite t n f =>
      -- Of one sign, the exponents decide first.
      have sizes : ((compare e f).then (compare m n)).swap = (compare f e).then (compare n m) := by
        rw [Ordering.swap_then, ← Std.OrientedCmp.eq_swap, ← Std.OrientedCmp.eq_swap]
      cases s with
      | positive =>
        cases t with
        | positive => exact congrArg some sizes
        | negative => rfl
      | negative =>
        cases t with
        | positive => rfl
        | negative => exact congrArg (fun ordering => some ordering.swap) sizes

theorem float_beq_comm (a b : Float) : (a == b) = (b == a) := by
  change (a.toModel.unpack.compare b.toModel.unpack == some .eq) =
    (b.toModel.unpack.compare a.toModel.unpack == some .eq)
  rw [← unpacked_compare_swap a.toModel.unpack]
  cases a.toModel.unpack.compare b.toModel.unpack with
  | none => rfl
  | some ordering => cases ordering <;> rfl

namespace Value

/-! ### Equality at any depth -/

mutual

/-- Equality that compares an integer and a float as floats at any depth. -/
def alike : Value → Value → Bool
  | .seq as, .seq bs => alikeItems as bs
  | .map as, .map bs => alikeFields as bs
  | a, b => a.equal b

def alikeItems : List Value → List Value → Bool
  | [], [] => true
  | a :: as, b :: bs => a.alike b && alikeItems as bs
  | _, _ => false

def alikeFields : List (String × Value) → List (String × Value) → Bool
  | [], [] => true
  | (j, a) :: as, (k, b) :: bs => j == k && a.alike b && alikeFields as bs
  | _, _ => false

end

mutual

/-- An integer stands against a float somewhere in two values. -/
def crossed : Value → Value → Bool
  | .int _, .float _ | .float _, .int _ => true
  | .seq as, .seq bs => crossedItems as bs
  | .map as, .map bs => crossedFields as bs
  | _, _ => false

def crossedItems : List Value → List Value → Bool
  | a :: as, b :: bs => a.crossed b || crossedItems as bs
  | _, _ => false

def crossedFields : List (String × Value) → List (String × Value) → Bool
  | (_, a) :: as, (_, b) :: bs => a.crossed b || crossedFields as bs
  | _, _ => false

end

mutual

/-- Values of equal kind and content are those that are equal at any depth without an integer against a float. -/
theorem same_eq (a b : Value) : a.same b = (a.alike b && !a.crossed b) := by
  cases a with
  | seq as =>
    cases b with
    | seq bs =>
      rw [same, alike, crossed]
      exact sameItems_eq as bs
    | _ => simp [same, alike, crossed, equal]
  | map as =>
    cases b with
    | map bs =>
      rw [same, alike, crossed]
      exact sameFields_eq as bs
    | _ => simp [same, alike, crossed, equal]
  | _ => cases b <;> simp [same, alike, crossed, equal]

theorem sameItems_eq (as bs : List Value) : sameItems as bs = (alikeItems as bs && !crossedItems as bs) := by
  cases as with
  | nil => cases bs <;> simp [sameItems, alikeItems, crossedItems]
  | cons a as =>
    cases bs with
    | nil => simp [sameItems, alikeItems]
    | cons b bs =>
      rw [sameItems, alikeItems, crossedItems, same_eq a b, sameItems_eq as bs, Bool.not_or]
      ac_rfl

theorem sameFields_eq (as bs : List (String × Value)) :
    sameFields as bs = (alikeFields as bs && !crossedFields as bs) := by
  cases as with
  | nil => cases bs <;> simp [sameFields, alikeFields, crossedFields]
  | cons field as =>
    obtain ⟨j, a⟩ := field
    cases bs with
    | nil => simp [sameFields, alikeFields]
    | cons field bs =>
      obtain ⟨k, b⟩ := field
      rw [sameFields, alikeFields, crossedFields, same_eq a b, sameFields_eq as bs, Bool.not_or]
      ac_rfl

end

/-! ### Symmetry -/

mutual

theorem same_comm (a b : Value) : a.same b = b.same a := by
  cases a with
  | seq as =>
    cases b with
    | seq bs =>
      rw [same, same]
      exact sameItems_comm as bs
    | _ => simp [same]
  | map as =>
    cases b with
    | map bs =>
      rw [same, same]
      exact sameFields_comm as bs
    | _ => simp [same]
  | float x =>
    cases b with
    | float y =>
      rw [same, same]
      exact float_beq_comm x y
    | _ => simp [same]
  | _ => cases b <;> simp [same, BEq.comm]

theorem sameItems_comm (as bs : List Value) : sameItems as bs = sameItems bs as := by
  cases as with
  | nil => cases bs <;> rfl
  | cons a as =>
    cases bs with
    | nil => rfl
    | cons b bs => rw [sameItems, sameItems, same_comm a b, sameItems_comm as bs]

theorem sameFields_comm (as bs : List (String × Value)) : sameFields as bs = sameFields bs as := by
  cases as with
  | nil => cases bs <;> rfl
  | cons field as =>
    obtain ⟨j, a⟩ := field
    cases bs with
    | nil => rfl
    | cons field bs =>
      obtain ⟨k, b⟩ := field
      rw [sameFields, sameFields, same_comm a b, sameFields_comm as bs, BEq.comm]

end

/-! ### Sequences -/

section Sequences

variable {a b : Value} {as bs : List Value}

theorem alikeItems_iff : alikeItems as bs = true ↔ List.Forall₂ (fun a b => a.alike b = true) as bs := by
  induction as generalizing bs with
  | nil => cases bs <;> simp [alikeItems]
  | cons a as ih => cases bs <;> simp [alikeItems, ih]

/-- Values that templates hold for equal are equal at any depth. -/
theorem alike_of_equal (h : a.equal b = true) : a.alike b = true := by
  have of_same (same : a.same b = true) : a.alike b = true := by
    rw [same_eq, Bool.and_eq_true] at same
    exact same.1
  cases a with
  | seq as => cases b <;> exact of_same h
  | map as => cases b <;> exact of_same h
  | _ => simpa [alike] using h

/-- What templates answer on two sequences: for the operator, for membership in sequences that hold the second, and for
the tests of equality. -/
structure Answers (as bs : List Value) (answer : Bool) : Prop where
  eq : Comparison.apply .eq (.seq as) (.seq bs) = .ok answer
  alone : Comparison.apply .isIn (.seq as) (.seq [.seq bs]) = .ok answer
  among : answer = true → ∀ items, .seq bs ∈ items → Comparison.apply .isIn (.seq as) (.seq items) = .ok true
  test : ∀ name ∈ ["eq", "equalto", "sameas"], ∀ args, (Value.seq as).test name (.seq bs :: args) = .ok answer

theorem equal_seq (as bs : List Value) :
    (Value.seq as).equal (.seq bs) = (alikeItems as bs && !crossedItems as bs) := by
  rw [equal, same, sameItems_eq]
  · nofun
  · nofun

theorem equal_seq_comm (as bs : List Value) : (Value.seq as).equal (.seq bs) = (Value.seq bs).equal (.seq as) :=
  same_comm (.seq as) (.seq bs)

/-- The operator, membership and the tests all answer by the same equality. -/
theorem answers_equal (as bs : List Value) : Answers as bs ((Value.seq as).equal (.seq bs)) where
  eq := rfl
  alone := by
    rw [equal_seq_comm]
    simp only [Comparison.apply, contains, List.any_cons, List.any_nil, Bool.or_false]
  among equal items m := by
    rw [equal_seq_comm] at equal
    exact congrArg Except.ok (List.any_eq_true.2 ⟨_, m, equal⟩)
  test name m args := by
    simp only [List.mem_cons, List.not_mem_nil, or_false] at m
    rcases m with rfl | rfl | rfl <;> rfl

/-- Sequences whose items are equal pairwise, at any depth, count as equal exactly if nowhere in them an integer stands
against a float: for the operator, for membership and for the tests, whichever of them comes first. Items that the
operator holds for equal are equal in this sense. -/
theorem answers_of_alike (as bs : List Value) :
    (List.Forall₂ (fun a b => Comparison.apply .eq a b = .ok true) as bs →
      List.Forall₂ (fun a b => a.alike b = true) as bs) ∧
    (List.Forall₂ (fun a b => a.alike b = true) as bs →
      Answers as bs (!crossedItems as bs) ∧ Answers bs as (!crossedItems as bs)) := by
  refine ⟨List.Forall₂.imp fun a b equal => alike_of_equal (Except.ok.inj equal), fun pairs => ?_⟩
  have answer : (Value.seq as).equal (.seq bs) = !crossedItems as bs := by
    rw [equal_seq, alikeItems_iff.2 pairs, Bool.true_and]
  constructor
  · rw [← answer]
    exact answers_equal as bs
  · rw [← answer, equal_seq_comm]
    exact answers_equal bs as

/-- Zero and its negative are floats of one size, and integers are equal at any depth. -/
theorem answers_of_zeros :
    Answers [.seq [.int 1, .string "x"], .float 0.0] [.seq [.int 1, .string "x"], .float (-0.0)] true := by
  have pairs : List.Forall₂ (fun a b : Value => a.alike b = true) [.seq [.int 1, .string "x"], .float 0.0]
      [.seq [.int 1, .string "x"], .float (-0.0)] :=
    .cons (by decide) (.cons (by decide +kernel) .nil)
  exact ((answers_of_alike _ _).2 pairs).1

/-- One is equal to the float of its size, but as items of sequences they are not. -/
theorem not_equal_of_crossed :
    Comparison.apply .eq (.int 1) (.float 1.0) = .ok true ∧
      Comparison.apply .eq (.seq [.int 1]) (.seq [.float 1.0]) = .ok false ∧
      Comparison.apply .isIn (.seq [.int 1]) (.seq [.seq [.float 1.0]]) = .ok false ∧
      (Value.seq [.int 1]).test "sameas" [.seq [.float 1.0]] = .ok false ∧
      Template.renderText "\x7b\x7b 1 == 1.0 and [1] != [1.0] \x7d\x7d" .empty .english = .ok "true" :=
  ⟨congrArg Except.ok (by decide), rfl, rfl, rfl, by decide +kernel⟩

end Sequences

end Value

end Folio
