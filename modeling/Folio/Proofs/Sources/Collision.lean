import Folio.Sources
import Mathlib.Data.Char
import Mathlib.Data.List.Induction
import Mathlib.Data.List.Lex
import Mathlib.Data.Prod.Lex

/-! Outputs that meet. Paths are in a linear order, the one of their components, and of the paths that two plans share
the least one is reported, as the first of its plans writes it and with the sources of all. -/
namespace Folio

/-! ### The order of paths -/

namespace Path

namespace Component

/-- The marks come before the names, and names are in the order of their texts. -/
def key (component : Component) : ℕ ×ₗ List Char :=
  toLex (component.rank, component.text)

theorem key_injective : Function.Injective key := by
  intro a b h
  cases a <;> cases b <;> simp_all [key, rank, text]

instance : LinearOrder Component :=
  LinearOrder.lift' key key_injective

theorem lt_iff {a b : Component} : a.lt b = true ↔ a < b := by
  have keys : a < b ↔ a.rank < b.rank ∨ a.rank = b.rank ∧ a.text < b.text := Prod.Lex.lt_iff
  rw [keys, lt]
  simp

end Component

theorem before_iff_lt {as bs : List Component} : before as bs = true ↔ as < bs := by
  induction as generalizing bs with
  | nil => cases bs <;> simp [before]
  | cons a as ih =>
    cases bs with
    | nil => simp [before]
    | cons b bs => simp [before, Component.lt_iff, ih, List.cons_lt_cons_iff]

theorem same_iff {a b : String} : same a b = true ↔ components a = components b :=
  decide_eq_true_iff

end Path

namespace Sources

variable {plans : List Plan} {output : String}

/-- Two entries of the list have an output with the path. -/
def Shared (plans : List Plan) (output : String) : Prop :=
  ∃ a b, [a, b].Sublist plans ∧ Path.same a.output output ∧ Path.same b.output output

theorem one_lt_length_filter_iff :
    1 < (plans.filter (fun other => Path.same other.output output)).length ↔ Shared plans output := by
  constructor
  · intro more
    match found : plans.filter (fun other => Path.same other.output output) with
    | [] | [_] => simp [found] at more
    | a :: b :: rest =>
      have sub : [a, b].Sublist (plans.filter (fun other => Path.same other.output output)) := by
        rw [found]
        exact (List.nil_sublist rest).cons_cons b |>.cons_cons a
      have here (plan : Plan) (m : plan ∈ [a, b]) : Path.same plan.output output :=
        (List.mem_filter.1 (sub.subset m)).2
      exact ⟨a, b, sub.trans List.filter_sublist, here a (by simp), here b (by simp)⟩
  · rintro ⟨a, b, sub, ha, hb⟩
    have kept := (sub.filter (fun other => Path.same other.output output)).length_le
    simp only [List.filter_cons, ha, hb, if_true, List.length_cons] at kept
    omega

theorem shared_iff_of_same {a b : String} (h : Path.same a b) : Shared plans a ↔ Shared plans b := by
  simp only [Shared, Path.same, Path.same_iff.1 h]

/-- No two entries have outputs with the same path. -/
def Apart (plans : List Plan) : Prop :=
  plans.Pairwise (fun a b => ¬ Path.same a.output b.output)

theorem not_apart_iff : ¬ Apart plans ↔ ∃ a b, [a, b].Sublist plans ∧ Path.same a.output b.output := by
  rw [Apart, List.pairwise_iff_forall_sublist]
  simp only [not_forall, not_not, exists_prop]

/-- What is reported of plans: the least path that two of them share, as the first of its plans writes it, and the
sources of its plans in their order. -/
structure IsCollision (plans : List Plan) (output : String) (named : List String) : Prop where
  shared : Shared plans output
  first : ∃ front plan back, plans = front ++ plan :: back ∧ plan.output = output ∧
    ∀ other ∈ front, ¬ Path.same other.output output
  least : ∀ plan ∈ plans, Shared plans plan.output →
    Path.same output plan.output ∨ Path.before (Path.components output) (Path.components plan.output)
  named_eq : named = (plans.filter (fun plan => Path.same plan.output output)).map (·.source)

/-- The plans whose paths are shared. -/
def crossing (plans : List Plan) : List Plan :=
  plans.filter (fun plan => 1 < (plans.filter (fun other => Path.same other.output plan.output)).length)

theorem mem_crossing {plan : Plan} : plan ∈ crossing plans ↔ plan ∈ plans ∧ Shared plans plan.output := by
  rw [crossing, List.mem_filter, decide_eq_true_eq, one_lt_length_filter_iff]

/-- The plan with the least path, the first one if there are several. -/
def leastOf (plans : List Plan) : Option Plan :=
  plans.foldl (fun least plan =>
    match least with
    | none => some plan
    | some best =>
      if Path.before (Path.components plan.output) (Path.components best.output) then some plan
      else least) none

theorem collision?_eq (plans : List Plan) : collision? plans = (leastOf (crossing plans)).map (fun plan =>
    (plan.output, (plans.filter (fun other => Path.same other.output plan.output)).map (·.source))) :=
  rfl

theorem leastOf_concat (plans : List Plan) (plan : Plan) : leastOf (plans ++ [plan]) =
    match leastOf plans with
    | none => some plan
    | some best =>
      if Path.before (Path.components plan.output) (Path.components best.output) then some plan else some best := by
  rw [leastOf, leastOf, List.foldl_append]
  dsimp only [List.foldl_cons, List.foldl_nil]
  split
  · rfl
  · rename_i found
    rw [found]

theorem leastOf_eq_none_iff : leastOf plans = none ↔ plans = [] := by
  cases plans using List.reverseRecOn with
  | nil => exact iff_of_true rfl rfl
  | append_singleton plans plan =>
    rw [leastOf_concat]
    split
    · simp
    · split <;> simp

/-- In front of the least plan are greater ones only, and behind it none that is less. -/
theorem split_of_leastOf {plan : Plan} (h : leastOf plans = some plan) : ∃ front back, plans = front ++ plan :: back ∧
    (∀ other ∈ front, Path.components plan.output < Path.components other.output) ∧
    ∀ other ∈ back, Path.components plan.output ≤ Path.components other.output := by
  induction plans using List.reverseRecOn generalizing plan with
  | nil => cases h
  | append_singleton plans last ih =>
    rw [leastOf_concat] at h
    split at h
    · rename_i none
      cases h
      rw [leastOf_eq_none_iff.1 none]
      exact ⟨[], [], rfl, nofun, nofun⟩
    · rename_i best found
      obtain ⟨front, back, split, greater, notLess⟩ := ih found
      simp only [Path.before_iff_lt] at h
      split at h
      · rename_i less
        cases h
        refine ⟨plans, [], rfl, fun other m => ?_, nofun⟩
        rw [split, List.mem_append, List.mem_cons] at m
        rcases m with m | rfl | m
        · exact less.trans (greater other m)
        · exact less
        · exact less.trans_le (notLess other m)
      · rename_i notBefore
        cases h
        refine ⟨front, back ++ [last], by rw [split, List.append_assoc, List.cons_append], greater, fun other m => ?_⟩
        rcases List.mem_append.1 m with m | m
        · exact notLess other m
        · exact List.mem_singleton.1 m ▸ not_lt.1 notBefore

theorem collision?_eq_none_iff : collision? plans = none ↔ Apart plans := by
  rw [collision?_eq, Option.map_eq_none_iff, leastOf_eq_none_iff, ← not_iff_not, not_apart_iff]
  constructor
  · intro some
    obtain ⟨plan, m⟩ := List.exists_mem_of_ne_nil _ some
    obtain ⟨a, b, sub, ha, hb⟩ := (mem_crossing.1 m).2
    exact ⟨a, b, sub, Path.same_iff.2 ((Path.same_iff.1 ha).trans (Path.same_iff.1 hb).symm)⟩
  · rintro ⟨a, b, sub, same⟩
    have m : b ∈ crossing plans := mem_crossing.2 ⟨sub.subset (by simp), a, b, sub, same, Path.same_iff.2 rfl⟩
    exact List.ne_nil_of_mem m

/-- The plan that is reported is the first one with its path. -/
theorem find?_of_leastOf {plan : Plan} (h : leastOf (crossing plans) = some plan) :
    plans.find? (fun other => Path.same other.output plan.output) = some plan := by
  obtain ⟨front, back, split, greater, -⟩ := split_of_leastOf h
  have shared := (mem_crossing.1 (split ▸ List.mem_append_right _ List.mem_cons_self)).2
  have inCrossing : (crossing plans).find? (fun other => Path.same other.output plan.output) = some plan := by
    refine List.find?_eq_some_iff_append.2 ⟨Path.same_iff.2 rfl, front, back, split, fun other m => ?_⟩
    rw [Bool.not_eq_true', ← Bool.not_eq_true, Path.same_iff]
    exact (greater other m).ne'
  -- All plans with this path are shared, so that none is passed over.
  have all (other : Plan) : (decide (1 < (plans.filter (fun more => Path.same more.output other.output)).length) &&
      Path.same other.output plan.output) = Path.same other.output plan.output := by
    refine Bool.and_eq_right_iff_imp.2 fun same => decide_eq_true ?_
    exact one_lt_length_filter_iff.2 ((shared_iff_of_same same).2 shared)
  rw [crossing, List.find?_filter] at inCrossing
  simpa only [Bool.decide_and, Bool.decide_eq_true, all] using inCrossing

theorem isCollision_of_collision? {named : List String} (h : collision? plans = some (output, named)) :
    IsCollision plans output named := by
  rw [collision?_eq, Option.map_eq_some_iff] at h
  obtain ⟨plan, found, same⟩ := h
  obtain ⟨rfl, rfl⟩ := Prod.mk.inj same
  obtain ⟨front, back, split, greater, notLess⟩ := split_of_leastOf found
  have m : plan ∈ crossing plans := split ▸ by simp
  obtain ⟨mp, shared⟩ := mem_crossing.1 m
  refine ⟨shared, ?_, fun other mo others => ?_, rfl⟩
  · obtain ⟨-, front, back, split, apart⟩ := List.find?_eq_some_iff_append.1 (find?_of_leastOf found)
    exact ⟨front, plan, back, split, rfl, by simpa using apart⟩
  · have m := mem_crossing.2 ⟨mo, others⟩
    have le : Path.components plan.output ≤ Path.components other.output := by
      rw [split, List.mem_append, List.mem_cons] at m
      rcases m with m | rfl | m
      · exact (greater other m).le
      · exact le_rfl
      · exact notLess other m
    rcases le.eq_or_lt with eq | lt
    · exact .inl (Path.same_iff.2 eq)
    · exact .inr (Path.before_iff_lt.2 lt)

end Sources

end Folio
