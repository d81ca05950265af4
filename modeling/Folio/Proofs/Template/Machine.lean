import Folio.Proofs.Template.Operation
import Mathlib.Algebra.Order.Ring.Int
import Mathlib.Tactic.Linarith

/-! Integers of sixty-four bits. The operators, tests, ranges and loops of templates are here as a machine computes
them, by operations that either answer that a result does not fit or stop the program where it does not. Each is the
operation on exact integers, and only the test for multiples can stop the program. -/
namespace Folio

theorem int64?_eq_some_iff {n : Int} {i : Int64} : int64? n = some i ↔ i.toInt = n := by
  have lower := i.le_toInt
  have upper := i.toInt_lt
  unfold int64?
  constructor
  · intro h
    split at h
    · rename_i fits
      simp only [Bool.and_eq_true, decide_eq_true_eq] at fits
      rw [← Option.some.inj h]
      exact Int64.toInt_ofInt_of_le (by omega) (by omega)
    · cases h
  · rintro rfl
    have fits : (-0x8000000000000000 ≤ i.toInt && i.toInt < 0x8000000000000000) = true := by
      simp only [Bool.and_eq_true, decide_eq_true_eq]
      omega
    rw [if_pos fits, Int64.ofInt_toInt]

@[simp] theorem int64?_toInt (i : Int64) : int64? i.toInt = some i :=
  int64?_eq_some_iff.2 rfl

theorem int64?_eq_none_iff {n : Int} : int64? n = none ↔ n < -2 ^ 63 ∨ 2 ^ 63 ≤ n := by
  unfold int64?
  split
  · rename_i fits
    simp only [Bool.and_eq_true, decide_eq_true_eq] at fits
    simp
    omega
  · rename_i beyond
    simp only [Bool.and_eq_true, decide_eq_true_eq] at beyond
    simp
    omega

/-! ### Division of integers -/

section Division

variable {a b : Int}

theorem tmod_eq_zero_iff_dvd : a.tmod b = 0 ↔ b ∣ a :=
  ⟨Int.dvd_of_tmod_eq_zero, Int.tmod_eq_zero_of_dvd⟩

/-- Rounding down is rounding towards zero, less one where the signs differ and something is left over. -/
theorem fdiv_eq_tdiv_sub (hb : b ≠ 0) :
    a.fdiv b = a.tdiv b - if a.tmod b ≠ 0 ∧ decide (a < 0) ≠ decide (b < 0) then 1 else 0 := by
  rw [Int.fdiv_eq_tdiv]
  by_cases divides : b ∣ a
  · simp [divides, tmod_eq_zero_iff_dvd.2 divides]
  · have rest : a.tmod b ≠ 0 := fun zero => divides (tmod_eq_zero_iff_dvd.1 zero)
    rcases lt_or_gt_of_ne hb with negative | positive
    · by_cases ha : 0 ≤ a
      · simp [divides, rest, ha, negative, not_le.2 negative, not_lt.2 ha]
      · simp [divides, rest, ha, negative, not_le.2 negative, not_le.1 ha, Int.sign_eq_neg_one_of_neg negative]
    · by_cases ha : 0 ≤ a
      · simp [divides, rest, ha, positive.le, not_lt.2 ha, not_lt.2 positive.le]
      · simp [divides, rest, ha, positive.le, not_le.1 ha, not_lt.2 positive.le, Int.sign_eq_one_of_pos positive]

theorem fmod_eq_tmod_add (hb : b ≠ 0) :
    a.fmod b = a.tmod b + if a.tmod b ≠ 0 ∧ decide (a.tmod b < 0) ≠ decide (b < 0) then b else 0 := by
  have sign (rest : a.tmod b ≠ 0) : decide (a.tmod b < 0) = decide (a < 0) := by
    by_cases ha : 0 ≤ a
    · have nonneg := Int.tmod_nonneg b ha
      simp [not_lt.2 ha, not_lt.2 nonneg]
    · have nonpos : a.tmod b ≤ 0 := by
        have := Int.tmod_nonneg b (Int.neg_nonneg.2 (le_of_lt (not_le.1 ha)))
        rw [Int.neg_tmod] at this
        omega
      have negative : a.tmod b < 0 := lt_of_le_of_ne nonpos rest
      simp [not_le.1 ha, negative]
  have whole := Int.tmod_def a b
  rw [Int.fmod_def, fdiv_eq_tdiv_sub hb, mul_sub]
  by_cases rest : a.tmod b = 0
  · simp only [rest, ne_eq, not_true_eq_false, false_and, if_false]
    omega
  · rw [sign rest]
    by_cases differ : decide (a < 0) ≠ decide (b < 0)
    · rw [if_pos ⟨rest, differ⟩, if_pos ⟨rest, differ⟩]
      omega
    · rw [if_neg fun h => differ h.2, if_neg fun h => differ h.2]
      omega

end Division

/-! ### Operations of the machine -/

/-- An operation without a check of its own has no result that fits. -/
inductive Trap where
  | overflow
  | divisionByZero
  deriving DecidableEq, Repr

namespace Machine

section Operations

variable (a b : Int64)

/-- The quotient of two integers does not exist, or does not fit. -/
def Undivided : Prop :=
  b = 0 ∨ a = Int64.minValue ∧ b = -1

instance : Decidable (Undivided a b) :=
  inferInstanceAs (Decidable (b = 0 ∨ a = Int64.minValue ∧ b = -1))

/-- The remainder without a check. -/
def rem : Except Trap Int64 :=
  if b = 0 then .error .divisionByZero
  else if a = Int64.minValue ∧ b = -1 then .error .overflow
  else .ok (a % b)

def div? : Option Int64 :=
  if Undivided a b then none else some (a / b)

def rem? : Option Int64 :=
  if Undivided a b then none else some (a % b)

/-- The quotient that is rounded down. What is left over is computed without a check. -/
def floorDiv? : Except Trap (Option Int64) :=
  match div? a b with
  | none => .ok none
  | some quotient => do
    let rest ← rem a b
    return if rest ≠ 0 ∧ decide (a < 0) ≠ decide (b < 0) then int64? (quotient.toInt - 1) else some quotient

/-- The remainder with the sign of the divisor. -/
def floorRem? : Option Int64 :=
  (rem? a b).bind fun rest =>
    if rest ≠ 0 ∧ decide (rest < 0) ≠ decide (b < 0) then int64? (rest.toInt + b.toInt) else some rest

end Operations

section Operations

variable {a b : Int64}

theorem toInt_ne_zero (h : b ≠ 0) : b.toInt ≠ 0 :=
  fun zero => h (Int64.toInt_inj.1 zero)

theorem lt_zero_iff : a < 0 ↔ a.toInt < 0 :=
  Int64.lt_iff_toInt_lt

theorem toInt_div_of_divided (h : ¬Undivided a b) : (a / b).toInt = a.toInt.tdiv b.toInt := by
  by_cases least : a = Int64.minValue
  · exact Int64.toInt_div_of_ne_right a b fun minus => h (.inr ⟨least, minus⟩)
  · exact Int64.toInt_div_of_ne_left a b least

theorem rem_of_divided (h : ¬Undivided a b) : rem a b = .ok (a % b) := by
  rw [rem, if_neg fun zero => h (.inl zero), if_neg fun least => h (.inr least)]

/-- The one quotient of two integers that does not fit. -/
theorem fdiv_of_least (least : a = Int64.minValue) (minus : b = -1) : a.toInt.fdiv b.toInt = 2 ^ 63 := by
  rw [least, minus]
  rfl

theorem floorDiv?_eq (h : b ≠ 0) : floorDiv? a b = .ok (int64? (a.toInt.fdiv b.toInt)) := by
  by_cases undivided : Undivided a b
  · obtain zero | ⟨least, minus⟩ := undivided
    · exact absurd zero h
    · rw [fdiv_of_least least minus, floorDiv?, div?, if_pos (.inr ⟨least, minus⟩)]
      rfl
  · have rest : a % b ≠ 0 ↔ a.toInt.tmod b.toInt ≠ 0 := by
      rw [← Int64.toInt_mod, not_iff_not]
      exact Int64.toInt_inj.symm
    rw [floorDiv?, div?, if_neg undivided]
    simp only [rem_of_divided undivided]
    rw [fdiv_eq_tdiv_sub (toInt_ne_zero h), ← toInt_div_of_divided undivided]
    simp only [bind, Except.bind, pure, Except.pure, rest, lt_zero_iff]
    split
    · rfl
    · rw [sub_zero, int64?_toInt]

theorem floorRem?_eq (h : b ≠ 0) : floorRem? a b =
    if a = Int64.minValue ∧ b = -1 then none else int64? (a.toInt.fmod b.toInt) := by
  by_cases least : a = Int64.minValue ∧ b = -1
  · rw [floorRem?, rem?, if_pos (.inr least), if_pos least]
    rfl
  · have undivided : ¬Undivided a b := not_or.2 ⟨h, least⟩
    have rest : a % b ≠ 0 ↔ a.toInt.tmod b.toInt ≠ 0 := by
      rw [← Int64.toInt_mod, not_iff_not]
      exact Int64.toInt_inj.symm
    rw [floorRem?, rem?, if_neg undivided, if_neg least, fmod_eq_tmod_add (toInt_ne_zero h), Option.bind_some]
    simp only [rest, lt_zero_iff, Int64.toInt_mod]
    split
    · rfl
    · rw [add_zero, ← Int64.toInt_mod, int64?_toInt]

end Operations

end Machine

/-! ### Powers -/

/-- The powers of an integer that is neither zero nor a unit leave the range. -/
theorem int64?_pow_eq_none {a : Int} (large : 1 < a.natAbs) {n : Nat} (h : 64 ≤ n) : int64? (a ^ n) = none := by
  have size : 2 ^ 64 ≤ (a ^ n).natAbs := by
    rw [Int.natAbs_pow]
    calc 2 ^ 64 ≤ a.natAbs ^ 64 := Nat.pow_le_pow_left large 64
      _ ≤ a.natAbs ^ n := Nat.pow_le_pow_right (by omega) h
  rw [int64?_eq_none_iff]
  omega

/-- The powers of zero and the units alternate. -/
theorem pow_eq_of_small {a : Int} (small : a.natAbs ≤ 1) {n : Nat} (h : 64 ≤ n) : a ^ (64 + n % 2) = a ^ n := by
  obtain rfl | rfl | rfl : a = 0 ∨ a = 1 ∨ a = -1 := by omega
  · rw [zero_pow (by omega), zero_pow (by omega)]
  · rw [one_pow, one_pow]
  · rcases Nat.even_or_odd n with even | odd
    · rw [even.neg_one_pow, Nat.even_iff.1 even]
      rfl
    · rw [odd.neg_one_pow, Nat.odd_iff.1 odd]
      rfl

/-- A power is the exact one, if that fits. -/
theorem power?_eq (a : Int) (n : Nat) : power? a n = int64? (a ^ n) := by
  rw [power?]
  by_cases short : n < 64
  · rw [if_pos short]
    rfl
  · rw [if_neg short]
    by_cases small : a.natAbs ≤ 1
    · rw [if_pos small, ← pow_eq_of_small small (by omega)]
      rfl
    · rw [if_neg small, int64?_pow_eq_none (by omega) (by omega)]

namespace Machine

/-! ### Operators and tests -/

/-- Integers under an operator. -/
def ofInts (op : Operator) (a b : Int64) : Except Trap (Except RenderError Value) :=
  let fit (n : Option Int64) : Except RenderError Value :=
    n.elim (.error (.overflow op)) (fun n => .ok (.int n))
  let divided (result : Except Trap (Except RenderError Value)) : Except Trap (Except RenderError Value) :=
    if b = 0 then .ok (.error .divisionByZero) else result
  match op with
  | .add => .ok (fit (int64? (a.toInt + b.toInt)))
  | .sub => .ok (fit (int64? (a.toInt - b.toInt)))
  | .mul => .ok (fit (int64? (a.toInt * b.toInt)))
  | .div => divided (.ok (.ok (.float (floatOfInt a.toInt / floatOfInt b.toInt))))
  | .floorDiv => divided ((floorDiv? a b).map fit)
  | .rem => divided (.ok (fit (floorRem? a b)))
  | .pow =>
    if 0 ≤ b.toInt && b.toInt < 0x100000000 then .ok (fit (int64? (a.toInt ^ b.toInt.toNat)))
    else .ok (.ok (.float ((floatOfInt a.toInt).pow (floatOfInt b.toInt))))
  | .concat => .ok (.ok (.string ((Value.int a).text ++ (Value.int b).text)))

/-- No operator on integers can stop the program. -/
theorem ofInts_eq (op : Operator) (a b : Int64) : ofInts op a b = .ok (op.ofInts a b) := by
  cases op with
  | add | sub | mul | concat => rfl
  | div =>
    simp only [ofInts, Operator.ofInts]
    split
    · rfl
    · rfl
  | floorDiv =>
    simp only [ofInts, Operator.ofInts]
    by_cases zero : b = 0
    · rw [if_pos zero, if_pos zero]
    · rw [if_neg zero, if_neg zero, floorDiv?_eq zero]
      rfl
  | rem =>
    simp only [ofInts, Operator.ofInts, Operator.ofInts.remainder]
    by_cases zero : b = 0
    · rw [if_pos zero, if_pos zero]
    · rw [if_neg zero, if_neg zero, floorRem?_eq zero]
      split
      · rfl
      · rfl
  | pow =>
    simp only [ofInts, Operator.ofInts, power?_eq]
    split
    · rfl
    · rfl

/-- The test for multiples. What is left over is computed without a check. -/
def isMultiple : Value → Value → Except Trap Bool
  | .int n, .int d =>
    if d = 0 then .ok false
    else do
      let rest ← rem n d
      return rest = 0
  | _, _ => .ok false

/-- The answer of a test. Only a few tests compute anything. -/
def test (name : String) (value : Value) (args : List Value) : Except Trap (Except RenderError Bool) :=
  match name with
  | "even" =>
    match value with
    | .int i => do
      let rest ← rem i 2
      return .ok (rest = 0)
    | _ => .ok (.ok false)
  | "odd" =>
    match value with
    | .int i => do
      let rest ← rem i 2
      return .ok (rest ≠ 0)
    | _ => .ok (.ok false)
  | "divisibleby" =>
    match argument name args 0 with
    | .error cause => .ok (.error cause)
    | .ok divisor => (isMultiple value divisor).map .ok
  | other => .ok (value.test other args)

/-- One integer is a multiple of another if nothing is left over, however that is rounded. -/
theorem mod_eq_zero_iff (a b : Int64) : a % b = 0 ↔ a.toInt % b.toInt = 0 := by
  rw [← Int64.toInt_inj, Int64.toInt_mod, ← Int.dvd_iff_emod_eq_zero]
  exact tmod_eq_zero_iff_dvd

theorem rem_two (i : Int64) : rem i 2 = .ok (i % 2) := by
  apply rem_of_divided
  rintro (zero | ⟨-, minus⟩)
  · cases zero
  · cases minus

theorem isMultiple_eq {value divisor : Value} (h : ¬(value = .int Int64.minValue ∧ divisor = .int (-1))) :
    (isMultiple value divisor).map .ok = .ok (value.isMultiple divisor) := by
  cases value with
  | int n =>
    cases divisor with
    | int d =>
      have least : ¬(n = Int64.minValue ∧ d = -1) := fun ⟨hn, hd⟩ => h ⟨congrArg Value.int hn, congrArg Value.int hd⟩
      rw [isMultiple, Value.isMultiple]
      by_cases zero : d = 0
      · rw [if_pos zero, if_pos zero]
        rfl
      · rw [if_neg zero, if_neg zero, if_neg least, rem_of_divided (not_or.2 ⟨zero, least⟩)]
        simp only [bind, Except.bind, pure, Except.pure, Except.map, mod_eq_zero_iff]
    | _ => rfl
  | _ => rfl

/-- The test for multiples stops the program for the least integer and minus one. -/
theorem test_of_least {name : String} {value : Value} {args : List Value} (h : IsLeastByMinusOne name value args) :
    test name value args = .error .overflow := by
  obtain ⟨rfl, rfl, minus⟩ := h
  cases args with
  | nil => cases minus
  | cons divisor args =>
    cases minus
    rfl

/-- No other test can stop it. -/
theorem test_eq {name : String} {value : Value} {args : List Value} (h : ¬IsLeastByMinusOne name value args) :
    test name value args = .ok (value.test name args) := by
  unfold test
  split
  · cases value with
    | int i =>
      have given : Value.test "even" (.int i) args = .ok (decide (i.toInt % 2 = 0)) := rfl
      simp only [rem_two, given, bind, Except.bind, pure, Except.pure, mod_eq_zero_iff]
      rfl
    | _ => rfl
  · cases value with
    | int i =>
      have given : Value.test "odd" (.int i) args = .ok (decide (i.toInt % 2 ≠ 0)) := rfl
      simp only [rem_two, given, bind, Except.bind, pure, Except.pure, ne_eq, mod_eq_zero_iff]
      rfl
    | _ => rfl
  · have given : Value.test "divisibleby" value args = (argument "divisibleby" args 0).bind value.isMultiple := rfl
    rw [given, argument, ← List.head?_eq_getElem?]
    cases head : args.head? with
    | none => rfl
    | some divisor =>
      refine isMultiple_eq fun least => h ⟨rfl, least.1, ?_⟩
      rw [head, least.2]
  · rfl

/-! ### Ranges -/

/-- How far a range still has to go. -/
def span (stop step current : Int64) : Int :=
  if 0 < step.toInt then stop.toInt - current.toInt else current.toInt - stop.toInt

theorem span_pos_iff {stop step current : Int64} (h : step ≠ 0) : 0 < span stop step current ↔
    0 < step ∧ current < stop ∨ step < 0 ∧ stop < current := by
  have nonzero := toInt_ne_zero h
  simp only [Int64.lt_iff_toInt_lt, span]
  change _ ↔ 0 < step.toInt ∧ _ ∨ step.toInt < 0 ∧ _
  split
  · omega
  · omega

theorem ne_zero_of_climbs {stop step current : Int64} (h : 0 < step ∧ current < stop ∨ step < 0 ∧ stop < current) :
    step ≠ 0 := by
  rintro rfl
  rcases h with ⟨never, -⟩ | ⟨never, -⟩
  · exact absurd never (by decide)
  · exact absurd never (by decide)

/-- Towards the next integer of a range there is less to go. -/
theorem span_of_next (stop : Int64) {step current next : Int64} (h : next.toInt = current.toInt + step.toInt) :
    span stop step next = span stop step current - step.toInt.natAbs := by
  unfold span
  split
  · omega
  · omega

/-- The integers of a range one after the other, until the stop or until the next one does not fit. -/
def climb (stop step current : Int64) : List Int64 :=
  if _ : 0 < step ∧ current < stop ∨ step < 0 ∧ stop < current then
    current :: match _ : int64? (current.toInt + step.toInt) with
      | some next => climb stop step next
      | none => []
  else []
termination_by (span stop step current).toNat
decreasing_by
  rename_i climbs found
  have moved := span_of_next stop (int64?_eq_some_iff.1 found)
  have nonzero : step ≠ 0 := ne_zero_of_climbs climbs
  have more := (span_pos_iff nonzero).2 climbs
  have size := toInt_ne_zero nonzero
  omega

/-- The number of steps of a size that a distance takes. -/
def steps (distance : Int) (size : Nat) : Nat :=
  ((distance + size - 1) / size).toNat

theorem steps_of_nonpos {distance : Int} {size : Nat} (hs : 0 < size) (h : distance ≤ 0) : steps distance size = 0 := by
  have below : (distance + size - 1) / size < 1 := by
    rw [Int.ediv_lt_iff_lt_mul (by omega)]
    omega
  rw [steps]
  omega

theorem steps_of_pos {distance : Int} {size : Nat} (hs : 0 < size) (h : 0 < distance) :
    steps distance size = steps (distance - size) size + 1 := by
  have split : (distance + size - 1) / size = (distance - 1) / size + 1 := by
    rw [show distance + size - 1 = distance - 1 + 1 * size by omega]
    exact Int.add_mul_ediv_right _ _ (by omega)
  have nonneg : 0 ≤ (distance - 1) / (size : Int) := Int.ediv_nonneg (by omega) (by omega)
  rw [steps, steps, split, show distance - size + size - 1 = distance - 1 by omega]
  omega

theorem climb_eq (stop : Int64) {step : Int64} (h : step ≠ 0) (start : Int64) : climb stop step start =
    (List.range (steps (span stop step start) step.toInt.natAbs)).map
      (fun (k : Nat) => Int64.ofInt (start.toInt + k * step.toInt)) := by
  have size : 0 < step.toInt.natAbs := Int.natAbs_pos.2 (toInt_ne_zero h)
  fun_induction climb stop step start with
  | case1 current climbs ih =>
    rw [steps_of_pos size ((span_pos_iff h).2 climbs), List.range_succ_eq_map, List.map_cons, List.map_map]
    have here : Int64.ofInt (current.toInt + (0 : Nat) * step.toInt) = current := by simp
    rw [here]
    refine congrArg (current :: ·) ?_
    split
    · rename_i next found
      have moved := int64?_eq_some_iff.1 found
      rw [ih next found, span_of_next stop moved]
      refine List.map_congr_left fun k _ => ?_
      rw [moved, Function.comp, Nat.cast_succ, add_mul, one_mul]
      exact congrArg Int64.ofInt (by omega)
    · rename_i beyond
      -- The stop is within the range of integers, so the next one would have been the last.
      have short : span stop step current - step.toInt.natAbs ≤ 0 := by
        have far := int64?_eq_none_iff.1 beyond
        have lower := stop.le_toInt
        have upper := stop.toInt_lt
        have lower' := current.le_toInt
        have upper' := current.toInt_lt
        unfold span
        split
        · omega
        · omega
      rw [steps_of_nonpos size short]
      rfl
  | case2 current stops =>
    have short : span stop step current ≤ 0 := not_lt.1 fun more => stops ((span_pos_iff h).1 more)
    rw [steps_of_nonpos size short]
    rfl

/-- The integers of a range are those of the loop, each of which is checked. -/
theorem map_climb (start stop : Int64) {step : Int64} (h : step ≠ 0) :
    (climb stop step start).map Value.int = Value.progression start stop step := by
  rw [climb_eq stop h, List.map_map]
  rfl

/-- The sequence of a range, by the loop. -/
def range (args : List Value) : Except RenderError Value := do
  let (start, stop, step) ←
    match ← Value.integers args with
    | [stop] => .ok ((0 : Int64), stop, (1 : Int64))
    | [start, stop] => .ok (start, stop, 1)
    | [start, stop, step] => .ok (start, stop, step)
    | _ => .error .rangeArguments
  if step = 0 then .error .rangeStep
  else .ok (.seq ((climb stop step start).map .int))

theorem range_eq (args : List Value) : range args = Value.range args := by
  have stepped (start stop step : Int64) :
      (if step = 0 then .error .rangeStep else .ok (.seq ((climb stop step start).map .int)) :
        Except RenderError Value) =
      if step = 0 then .error .rangeStep else .ok (.seq (Value.progression start stop step)) := by
    split
    · rfl
    · rename_i nonzero
      rw [map_climb start stop nonzero]
  rw [range, Value.range]
  refine bind_congr fun ints => ?_
  rcases ints with _ | ⟨a, _ | ⟨b, _ | ⟨c, _ | ⟨d, ints⟩⟩⟩⟩
  · rfl
  · exact stepped 0 a 1
  · exact stepped a b 1
  · exact stepped a b c
  · rfl

/-! ### Counters of loops -/

section Counters

variable (a b : UInt64)

def add : Except Trap UInt64 :=
  if a.toNat + b.toNat < 2 ^ 64 then .ok (a + b) else .error .overflow

def sub : Except Trap UInt64 :=
  if b ≤ a then .ok (a - b) else .error .overflow

end Counters

/-- The progress of a loop, which is counted without checks. -/
def progress (index length : UInt64) : Except Trap Value := do
  let next ← add index 1
  let left ← sub length index
  let rest ← sub left 1
  return .map (Fields.ofList [
    ("index", .ofNat next.toNat),
    ("index0", .ofNat index.toNat),
    ("revindex", .ofNat left.toNat),
    ("revindex0", .ofNat rest.toNat),
    ("first", .bool (index = 0)),
    ("last", .bool (next = length)),
    ("length", .ofNat length.toNat)])

theorem add_of_lt {a b : UInt64} (h : a.toNat + b.toNat < 2 ^ 64) :
    ∃ c : UInt64, add a b = .ok c ∧ c.toNat = a.toNat + b.toNat := by
  refine ⟨a + b, if_pos h, ?_⟩
  rw [UInt64.toNat_add, Nat.mod_eq_of_lt h]

theorem sub_of_le {a b : UInt64} (h : b.toNat ≤ a.toNat) :
    ∃ c : UInt64, sub a b = .ok c ∧ c.toNat = a.toNat - b.toNat :=
  ⟨a - b, if_pos (UInt64.le_iff_toNat_le.2 h), UInt64.toNat_sub_of_le a b (UInt64.le_iff_toNat_le.2 h)⟩

/-- No counter of a loop can stop the program. -/
theorem progress_eq {index length : UInt64} (h : index < length) :
    progress index length = .ok (Template.progress index.toNat length.toNat) := by
  have below := UInt64.lt_iff_toNat_lt.1 h
  have bounded := length.toNat_lt
  have one : (1 : UInt64).toNat = 1 := rfl
  obtain ⟨next, hn, next_eq⟩ := add_of_lt (a := index) (b := 1) (by omega)
  obtain ⟨left, hl, left_eq⟩ := sub_of_le (a := length) (b := index) (by omega)
  obtain ⟨rest, hr, rest_eq⟩ := sub_of_le (a := left) (b := 1) (by omega)
  have first : index = 0 ↔ index.toNat = 0 := UInt64.toNat_inj.symm
  have last : next = length ↔ index.toNat + 1 = length.toNat := by
    rw [← UInt64.toNat_inj, next_eq, one]
  rw [progress, hn]
  simp only [bind, Except.bind, hl, hr, pure, Except.pure, Template.progress, next_eq, rest_eq, left_eq, one, first,
    last]

end Machine

end Folio
