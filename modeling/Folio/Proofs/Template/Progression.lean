import Folio.Proofs.Template.Machine
import Mathlib.Data.List.Nodup

/-! Ranges are arithmetic progressions. The loop behind a range ends for every start, stop and step, at the latest where
the next integer would not fit, and then it has listed the whole progression short of the stop. -/
namespace Folio.Machine

section Progression

variable {stop step start : Int64}

/-- An integer of any size comes before the stop of a range. -/
def Before (stop step : Int64) (n : Int) : Prop :=
  0 < step.toInt ∧ n < stop.toInt ∨ step.toInt < 0 ∧ stop.toInt < n

instance (stop step : Int64) (n : Int) : Decidable (Before stop step n) :=
  inferInstanceAs (Decidable (0 < step.toInt ∧ n < stop.toInt ∨ step.toInt < 0 ∧ stop.toInt < n))

/-- The loop of a range, with the items that it has, comes from the current integer to an end with the items that it has
then. It stops where the current integer has come to the stop, or where the next one does not fit. -/
inductive Loops (stop step : Int64) : List Int64 → Int64 → List Int64 → Prop
  | stops {items current} (passed : ¬(0 < step ∧ current < stop ∨ step < 0 ∧ stop < current)) :
      Loops stop step items current items
  | breaks {items current} (goes : 0 < step ∧ current < stop ∨ step < 0 ∧ stop < current)
      (beyond : int64? (current.toInt + step.toInt) = none) :
      Loops stop step items current (items ++ [current])
  | turns {items current next listed} (goes : 0 < step ∧ current < stop ∨ step < 0 ∧ stop < current)
      (found : int64? (current.toInt + step.toInt) = some next)
      (rest : Loops stop step (items ++ [current]) next listed) :
      Loops stop step items current listed

/-! ### The loop ends -/

theorem loops_climb (items : List Int64) (current : Int64) :
    Loops stop step items current (items ++ climb stop step current) := by
  fun_induction climb stop step current generalizing items with
  | case1 current goes ih =>
    split
    · rename_i next found
      have rest := ih next found (items ++ [current])
      rw [List.append_assoc, List.singleton_append] at rest
      exact .turns goes found rest
    · rename_i beyond
      exact .breaks goes beyond
  | case2 current passed =>
    rw [List.append_nil]
    exact .stops passed

theorem Loops.unique {items listed others : List Int64} {current : Int64} (h : Loops stop step items current listed)
    (h' : Loops stop step items current others) : listed = others := by
  induction h with
  | stops passed =>
    cases h' with
    | stops => rfl
    | breaks goes => exact absurd goes passed
    | turns goes => exact absurd goes passed
  | breaks goes beyond =>
    cases h' with
    | stops passed => exact absurd goes passed
    | breaks => rfl
    | turns _ found =>
      rw [beyond] at found
      cases found
  | turns goes found rest ih =>
    cases h' with
    | stops passed => exact absurd goes passed
    | breaks _ beyond =>
      rw [found] at beyond
      cases beyond
    | turns _ found' rest' =>
      rw [found] at found'
      cases found'
      exact ih rest'

/-! ### What it has listed -/

theorem lt_steps_iff {distance : Int} {size k : Nat} (hs : 0 < size) :
    k < steps distance size ↔ k * size < distance := by
  have whole : (k : Int) + 1 ≤ (distance + size - 1) / size ↔ (k + 1) * size ≤ distance + size - 1 :=
    Int.le_ediv_iff_mul_le (by omega)
  rw [add_mul, one_mul] at whole
  rw [steps]
  omega

/-- As many steps from the start as are short of the stop. -/
theorem before_iff (h : step ≠ 0) (k : Nat) : Before stop step (start.toInt + k * step.toInt) ↔
    k < steps (span stop step start) step.toInt.natAbs := by
  have nonzero := toInt_ne_zero h
  rw [lt_steps_iff (Int.natAbs_pos.2 nonzero), Before, span]
  rcases lt_or_gt_of_ne nonzero with negative | positive
  · have size : (k : Int) * step.toInt.natAbs = -(k * step.toInt) := by
      rw [Int.ofNat_natAbs_of_nonpos negative.le, mul_neg]
    rw [size, if_neg (by omega)]
    omega
  · have size : (k : Int) * step.toInt.natAbs = k * step.toInt := by
      rw [Int.natAbs_of_nonneg positive.le]
    rw [size, if_pos positive]
    omega

/-- The integers short of the stop lie between the start and the stop. -/
theorem toInt_ofInt_of_before {k : Nat} (before : Before stop step (start.toInt + k * step.toInt)) :
    (Int64.ofInt (start.toInt + k * step.toInt)).toInt = start.toInt + k * step.toInt := by
  have lower := stop.le_toInt
  have upper := stop.toInt_lt
  have lower' := start.le_toInt
  have upper' := start.toInt_lt
  rcases before with ⟨positive, short⟩ | ⟨negative, short⟩
  · have : 0 ≤ k * step.toInt := mul_nonneg (Int.natCast_nonneg k) positive.le
    exact Int64.toInt_ofInt_of_le (by omega) (by omega)
  · have : k * step.toInt ≤ 0 := mul_nonpos_of_nonneg_of_nonpos (Int.natCast_nonneg k) negative.le
    exact Int64.toInt_ofInt_of_le (by omega) (by omega)

theorem getElem?_climb (h : step ≠ 0) (k : Nat) : ((climb stop step start).map Int64.toInt)[k]? =
    if Before stop step (start.toInt + k * step.toInt) then some (start.toInt + k * step.toInt) else none := by
  rw [climb_eq stop h, List.map_map, List.getElem?_map]
  by_cases before : Before stop step (start.toInt + k * step.toInt)
  · rw [List.getElem?_range ((before_iff h k).1 before), if_pos before]
    exact congrArg some (toInt_ofInt_of_before before)
  · have beyond := mt (before_iff h k).2 before
    rw [List.getElem?_eq_none (by rw [List.length_range]; omega), if_neg before]
    rfl

theorem nodup_climb (h : step ≠ 0) : (climb stop step start).Nodup := by
  refine List.Nodup.of_map Int64.toInt (List.nodup_iff_getElem?_ne_getElem?.2 fun i j lt within same => ?_)
  rw [List.getElem?_eq_getElem within, getElem?_climb h i] at same
  have second := (List.getElem?_eq_getElem within).symm.trans (getElem?_climb h j)
  split at same
  · split at second
    · have equal : start.toInt + i * step.toInt = start.toInt + j * step.toInt :=
        (Option.some.inj same).trans (Option.some.inj second)
      have multiple : (i : Int) = j := mul_right_cancel₀ (toInt_ne_zero h) (by omega)
      omega
    · cases second
  · cases same

end Progression

/-- A range is an arithmetic progression. The loop behind it ends, and in one way only; what it has listed then is what
`range` answers. The integer of every index is the start with so many steps added, on integers of any size, if that is
short of the stop, and behind the last of these there is nothing; none stands there twice. -/
theorem range_progression (start stop : Int64) {step : Int64} (h : step ≠ 0) : ∃ items : List Int64,
    (∀ listed, Loops stop step [] start listed ↔ listed = items) ∧
    Value.range [.int start, .int stop, .int step] = .ok (.seq (items.map .int)) ∧
    (∀ k : Nat, (items.map Int64.toInt)[k]? =
      if Before stop step (start.toInt + k * step.toInt) then some (start.toInt + k * step.toInt) else none) ∧
    items.Nodup := by
  refine ⟨climb stop step start, fun listed => ?_, ?_, getElem?_climb h, nodup_climb h⟩
  · constructor
    · exact fun looped => looped.unique (loops_climb [] start)
    · rintro rfl
      exact loops_climb [] start
  · rw [map_climb start stop h]
    exact if_neg h

/-- Five steps from the greatest integer but seven, a range breaks off in front of the stop and lacks nothing. -/
theorem range_progression_of_greatest :
    Value.range [.int (Int64.maxValue - 7), .int Int64.maxValue, .int 5] =
      .ok (.seq [.int (Int64.maxValue - 7), .int (Int64.maxValue - 2)]) := by
  have step : (5 : Int64) ≠ 0 := by decide
  obtain ⟨items, loops, ranged, -, -⟩ := range_progression (Int64.maxValue - 7) Int64.maxValue step
  have listed : Loops Int64.maxValue 5 [] (Int64.maxValue - 7) [Int64.maxValue - 7, Int64.maxValue - 2] :=
    .turns (by decide) rfl (.breaks (by decide) rfl)
  rw [ranged, ← (loops _).1 listed]
  rfl

end Folio.Machine
