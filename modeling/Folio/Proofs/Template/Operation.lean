import Folio.Template.Render

/-! What the operations of templates fail with: operators, filters, tests, ranges and the items of loops. Each of them
has a value or says what is wrong with its operands; only the remainder by which a test looks for multiples may stop
short of both. -/
namespace Folio

/-- An operation has no value for its operands. -/
def RenderError.isOperational : RenderError → Bool
  | .notComparable .. | .divisionByZero | .overflow _ | .negationOverflow | .unsupportedOperands .. | .notNegatable _
  | .missingArgument .. | .unknownFilter _ | .unknownTest _ | .notIterable _ | .notUnpackable .. | .unpackMismatch ..
  | .rangeOfKind _ | .rangeArguments | .rangeStep => true
  | _ => false

/-- The result fails, if at all, as operations do. -/
def Operational {α : Type} (result : Except RenderError α) : Prop :=
  ∀ ⦃cause⦄, result = .error cause → cause.isOperational

namespace Operational

variable {α β : Type} {result : Except RenderError α}

theorem ok (value : α) : Operational (.ok value) :=
  nofun

theorem error {cause : RenderError} (h : cause.isOperational) : Operational (.error cause : Except RenderError α) := by
  intro other same
  exact Except.error.inj same ▸ h

theorem bind {f : α → Except RenderError β} (h : Operational result) (hf : ∀ value, Operational (f value)) :
    Operational (result >>= f) := by
  cases result with
  | error cause => exact error (h rfl)
  | ok value => exact hf value

theorem map (h : Operational result) (f : α → β) : Operational (result.map f) := by
  cases result with
  | error cause => exact error (h rfl)
  | ok value => exact ok (f value)

theorem ite {c : Prop} [Decidable c] {other : Except RenderError α} (h : Operational result)
    (ho : Operational other) : Operational (if c then result else other) := by
  split
  · exact h
  · exact ho

theorem elim (found : Option α) {cause : RenderError} (h : cause.isOperational) (f : α → β) :
    Operational (found.elim (.error cause) (fun a => .ok (f a))) := by
  cases found with
  | none => exact error h
  | some a => exact ok _

end Operational

section Operations

variable (value : Value) (args : List Value)

theorem operational_argument (filter : String) (index : Nat) : Operational (argument filter args index) :=
  Operational.elim args[index]? rfl id

theorem operational_filter (filter : String) (locale : Locale) : Operational (value.filter filter args locale) := by
  have arg (index : Nat) := operational_argument args "replace" index
  unfold Value.filter
  split
  all_goals first
    | exact .ok _
    | exact .error rfl
    | exact (arg 0).bind fun _ => (arg 1).bind fun _ => .ok _

theorem operational_ofInts (op : Operator) (a b : Int64) : Operational (op.ofInts a b) := by
  have fit (n : Option Int64) :
      Operational (n.elim (.error (.overflow op)) (fun n => .ok (Value.int n))) := .elim n rfl Value.int
  have divided : Operational (.error .divisionByZero : Except RenderError Value) := .error rfl
  cases op with
  | add | sub | mul => exact fit _
  | div => exact divided.ite (.ok _)
  | floorDiv => exact divided.ite (fit _)
  | rem => exact divided.ite (.ite (fit _) (fit _))
  | pow => exact .ite (fit _) (.ok _)
  | concat => exact .ok _

theorem operational_ofFloats (op : Operator) (a b : Float) : Operational (op.ofFloats a b) := by
  cases op with
  | div | floorDiv | rem => exact .ite (.error rfl) (.ok _)
  | _ => exact .ok _

theorem operational_operator (op : Operator) (left right : Value) : Operational (op.apply left right) := by
  unfold Operator.apply
  split
  case h_4 => exact operational_ofInts _ _ _
  all_goals first
    | exact .ok _
    | exact .error rfl
    | exact operational_ofFloats _ _ _

theorem operational_comparison (op : Comparison) (left right : Value) : Operational (op.apply left right) := by
  have ordered (holds : Ordering → Bool) : Operational ((left.order? right).elim
      (.error (.notComparable left.kind right.kind)) (fun ordering => .ok (holds ordering))) := .elim _ rfl holds
  cases op with
  | lt | le | gt | ge => exact ordered _
  | _ => exact .ok _

theorem operational_negate : Operational value.negate := by
  cases value with
  | int i => exact .elim (int64? (-i.toInt)) rfl Value.int
  | float x => exact .ok _
  | _ => exact .error rfl

theorem operational_integers : Operational (Value.integers args) := by
  induction args with
  | nil => exact .ok _
  | cons arg args ih =>
    rw [Value.integers, List.mapM_cons]
    refine .bind ?_ fun i => ih.bind fun _ => .ok _
    split
    · exact .ok _
    · exact .error rfl

theorem operational_range : Operational (Value.range args) := by
  have stepped (start stop step : Int64) :
      Operational (if step = 0 then .error .rangeStep else .ok (Value.seq (Value.progression start stop step))) :=
    .ite (.error rfl) (.ok _)
  rw [Value.range]
  refine (operational_integers args).bind fun ints => ?_
  rcases ints with _ | ⟨a, _ | ⟨b, _ | ⟨c, _ | ⟨d, ints⟩⟩⟩⟩
  · exact .error rfl
  · exact stepped 0 a 1
  · exact stepped a b 1
  · exact stepped a b c
  · exact .error rfl

theorem operational_loopItems (targets : List String) : Operational (Template.loopItems targets value) := by
  cases value with
  | map fields => exact .ite (.ok _) (.ok _)
  | seq _ | string _ | undefined | null => exact .ok _
  | _ => exact .error rfl

theorem operational_bindTargets (targets : List String) : Operational (Template.bindTargets targets value) := by
  unfold Template.bindTargets
  split
  · exact .ok _
  · exact .ite (.ok _) (.error rfl)
  · exact .error rfl

/-! ### Multiples -/

/-- The one test that has neither an answer nor an error of its own: whether the least integer is a multiple of minus
one. Its remainder does not fit. -/
def IsLeastByMinusOne (test : String) (value : Value) (args : List Value) : Prop :=
  test = "divisibleby" ∧ value = .int Int64.minValue ∧ args.head? = some (.int (-1))

variable {value args}

theorem isMultiple_of_error {divisor : Value} {cause : RenderError} (h : value.isMultiple divisor = .error cause) :
    cause = .remainderOverflow ∧ value = .int Int64.minValue ∧ divisor = .int (-1) := by
  unfold Value.isMultiple at h
  split at h
  · rename_i n d
    by_cases zero : d = 0
    · simp [zero] at h
    · by_cases least : n = Int64.minValue ∧ d = -1
      · simp [least] at h
        exact ⟨h.symm, by rw [least.1], by rw [least.2]⟩
      · simp [zero, least] at h
  · cases h

theorem test_of_error {test : String} {cause : RenderError} (h : value.test test args = .error cause) :
    cause.isOperational ∨ cause = .remainderOverflow ∧ IsLeastByMinusOne test value args := by
  have arg (test : String) := operational_argument args test 0
  unfold Value.test at h
  split at h
  case h_14 =>
    rw [argument, ← List.head?_eq_getElem?] at h
    cases head : args.head? with
    | none =>
      rw [head] at h
      exact .inl (Except.error.inj h ▸ rfl)
    | some divisor =>
      rw [head] at h
      obtain ⟨overflow, least, minus⟩ := isMultiple_of_error h
      exact .inr ⟨overflow, rfl, least, minus ▸ head⟩
  all_goals first
    | exact .inl (Except.error.inj h ▸ rfl)
    | exact .inl ((arg _).map _ h)
    | cases h

theorem test_eq_error_iff {test : String} :
    value.test test args = .error .remainderOverflow ↔ IsLeastByMinusOne test value args := by
  constructor
  · intro h
    rcases test_of_error h with h | h
    · cases h
    · exact h.2
  · rintro ⟨rfl, rfl, minus⟩
    obtain ⟨rest, rfl⟩ : ∃ rest, args = .int (-1) :: rest := by
      cases args with
      | nil => cases minus
      | cons arg rest => exact ⟨rest, by rw [Option.some.inj minus]⟩
    rfl

end Operations

end Folio
