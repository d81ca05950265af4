import Folio.Proofs.Template.Lockstep
import Folio.Proofs.Template.Machine
import Folio.Proofs.Template.Settling
import Mathlib.Logic.Relation

/-! No rendering stops for its arithmetic, unless a test asks somewhere whether the least integer is a multiple of minus
one. What every template, operator, filter, test, range and loop computes is a value, or an error of its own. -/
namespace Folio

open Node (partsOfAll)
open Relation (ReflTransGen)

/-- An expression stands in another one, or is that one. -/
def Expr.Within (inner e : Expr) : Prop :=
  ReflTransGen (fun outer child => child ∈ outer.children) e inner

namespace Template

/-- No test in the expression overflows. -/
def Calm (setting : Setting) (e : Expr) : Prop :=
  ∀ inner : Expr, inner.Within e → ¬Overflows setting inner

/-- Terms on which tests do not overflow. -/
def Terms.calm (setting : Setting) : Terms where
  first _ := False
  second _ := False
  common cause := cause ≠ .remainderOverflow
  admits := Calm setting
  knows _ _ := True
  opens _ := True

/-- All expressions of the nodes are calm. -/
def AllCalm (setting : Setting) (nodes : List Node) : Prop :=
  ∀ part ∈ partsOfAll nodes, ∀ e ∈ part.exprs, Calm setting e

section Calm

variable {setting : Setting}

theorem Terms.covers_calm (templates : ∀ ⦃name template⦄, setting.template? name = .ok (some template) →
    AllCalm setting template.nodes) (found : ∀ ⦃name⦄, setting.template? name ≠ .error .remainderOverflow) :
    (Terms.calm setting).Covers setting where
  common _ h := h
  overflow e calm overflows := absurd overflows (calm e .refl)
  children _ calm _ m inner within := calm inner (.head m within)
  template _ _ known := templates known
  found _ _ failed same := found (same ▸ failed)
  plain _ _ := trivial
  caller _ _ _ := trivial
  captured _ _ _ := trivial
  bindable := ⟨trivial, fun _ _ _ _ => trivial⟩

/-- Where no test overflows, no rendering stops for that. -/
theorem renderWithin_ne_remainderOverflow (covers : (Terms.calm setting).Covers setting) {template : Template}
    (calm : AllCalm setting template.nodes) (n : Nat) (globals : Namespace) :
    renderWithin setting n template globals ≠ .error .remainderOverflow := by
  have start : (Terms.calm setting).Alike 0 (.ofNamespace globals) (.ofNamespace globals) :=
    ⟨⟨fun _ => rfl, fun _ => .inl rfl, nofun⟩, .same trivial nofun⟩
  have keep := covers.keep_within n (.inl rfl)
  have agree : (Terms.calm setting).Agree (document setting (.within setting n) template 0 0 (.ofNamespace globals)).1
      (document setting (.within setting n) template 0 0 (.ofNamespace globals)).1 :=
    (Terms.follows_document covers keep calm (.inl rfl) (.inl rfl)).agree start
  intro failed
  rcases agree with (⟨_, never, _⟩ | ⟨_, never, _⟩) | ⟨-, common⟩
  · exact never
  · exact never
  · exact common failed rfl

end Calm

/-! ### Turns of loops -/

/-- A turn of a loop: an item with its index. -/
def turn (targets : List String) (body : Rendering String) (length : Nat) (done : String) (item : Value × Nat) :
    Rendering String := do
  let scope ← bindTargets targets item.1
  let text ← Rendering.inScope (Fields.put loopName (progress item.2 length) scope) body
  return done ++ text

/-- A loop takes its items one after the other, each with its index. -/
theorem forEach_eq (targets : List String) (body : Rendering String) (length : Nat) (items : List Value) :
    ∀ index done, forEach targets body length index items done =
      (items.zipIdx index).foldlM (turn targets body length) done := by
  induction items with
  | nil => exact fun _ _ => rfl
  | cons item items ih =>
    intro index done
    rw [forEach, List.zipIdx_cons, List.foldlM_cons, turn, bind_assoc]
    refine bind_congr fun scope => ?_
    rw [bind_assoc]
    refine bind_congr fun text => ?_
    rw [pure_bind, ih]

/-- The progress of every turn of a loop is counted without an overflow. -/
theorem progress_of_turn {items : List Value} (fits : items.length < 2 ^ 64) {item : Value × Nat}
    (m : item ∈ items.zipIdx) :
    Machine.progress (.ofNat item.2) (.ofNat items.length) = .ok (progress item.2 items.length) := by
  have word {k : Nat} (small : k < 2 ^ 64) : (UInt64.ofNat k).toNat = k :=
    UInt64.toNat_ofNat_of_lt' (by simpa [UInt64.size] using small)
  obtain ⟨-, below, -⟩ := List.mem_zipIdx (x := item.1) (i := item.2) m
  have index := word (k := item.2) (by omega)
  have length := word fits
  have before : UInt64.ofNat item.2 < UInt64.ofNat items.length := by
    rw [UInt64.lt_iff_toNat_lt]
    omega
  have counted := Machine.progress_eq before
  rwa [index, length] at counted

end Template

theorem Library.template?_cases (library : Library) (name : String) :
    (∃ template, library.get? name = some template ∧ library.setting.template? name = .ok (some template)) ∨
      library.setting.template? name = .ok none ∨
      ∃ error, library.setting.template? name = .error (.parse name error) := by
  change _ ∨ library.template? name = _ ∨ ∃ error, library.template? name = _
  rw [Library.template?]
  split
  · rename_i template known
    refine .inl ⟨template, known, ?_⟩
    change library.template? name = _
    rw [Library.template?, known]
  · exact .inr (.inr ⟨_, rfl⟩)
  · exact .inr (.inl rfl)

namespace Template

/-! ### The arithmetic of templates -/

/-- The texts of templates have no arithmetic that stops the program, apart from one test. Operators, tests, ranges and
the counters of loops come to what they come to on exact integers, where the machine checks them or not; operators,
filters and ranges fail, if at all, with errors of their own; and if a rendering fails for want of a remainder, then
some expression in its template, or in one of the library, is a test whether the least integer is a multiple of minus
one. -/
theorem arithmetic_of_templates (library : Library) :
    (∀ op a b, Machine.ofInts op a b = .ok (op.ofInts a b)) ∧
    (∀ op left right, Operational (Operator.apply op left right)) ∧
    (∀ op left right, Operational (Comparison.apply op left right)) ∧
    (∀ value, Operational (Value.negate value)) ∧
    (∀ name value args locale, Operational (Value.filter name value args locale)) ∧
    (∀ name value args, ¬IsLeastByMinusOne name value args →
      Machine.test name value args = .ok (Value.test name value args) ∧ Operational (Value.test name value args)) ∧
    (∀ name value args, IsLeastByMinusOne name value args →
      Machine.test name value args = .error .overflow ∧ Value.test name value args = .error .remainderOverflow) ∧
    (∀ args, Machine.range args = Value.range args ∧ Operational (Value.range args)) ∧
    (∀ items : List Value, items.length < 2 ^ 64 → ∀ item ∈ items.zipIdx,
      Machine.progress (.ofNat item.2) (.ofNat items.length) = .ok (progress item.2 items.length)) ∧
    ∀ (template : Template) globals n,
      renderWithin library.setting n template globals = .error .remainderOverflow →
        ∃ nodes, (nodes = template.nodes ∨ ∃ name other, library.get? name = some other ∧ nodes = other.nodes) ∧
          ∃ part ∈ partsOfAll nodes, ∃ e ∈ part.exprs, ∃ inner : Expr, inner.Within e ∧
            Overflows library.setting inner := by
  refine ⟨Machine.ofInts_eq, operational_operator, operational_comparison, operational_negate,
    fun name value args locale => operational_filter value args name locale,
    fun name value args least => ⟨Machine.test_eq least, ?_⟩,
    fun name value args least => ⟨Machine.test_of_least least, test_eq_error_iff.2 least⟩,
    fun args => ⟨Machine.range_eq args, operational_range args⟩, fun items fits item => progress_of_turn fits, ?_⟩
  · intro cause failed
    exact (test_of_error failed).resolve_right fun overflow => least overflow.2
  · intro template globals n failed
    by_contra calm
    -- If there is no such test, then all templates that can be included are calm.
    have covers : (Terms.calm library.setting).Covers library.setting := by
      refine Terms.covers_calm (fun name other found part m e me inner within overflows => ?_) fun name same => ?_
      · obtain ⟨known, get, found'⟩ | none | ⟨error, failed⟩ := library.template?_cases name
        · rw [found] at found'
          cases found'
          exact calm ⟨other.nodes, .inr ⟨name, other, get, rfl⟩, part, m, e, me, inner, within, overflows⟩
        · rw [found] at none
          cases none
        · rw [found] at failed
          cases failed
      · obtain ⟨known, -, found⟩ | none | ⟨error, failed⟩ := library.template?_cases name
        · rw [found] at same
          cases same
        · rw [none] at same
          cases same
        · rw [failed] at same
          cases same
    refine renderWithin_ne_remainderOverflow covers (fun part m e me inner within overflows => ?_) n globals failed
    exact calm ⟨template.nodes, .inl rfl, part, m, e, me, inner, within, overflows⟩

/-- The integer next to the least one is a multiple of minus one. -/
theorem arithmetic_of_next_to_least :
    Machine.test "divisibleby" (.int (Int64.minValue + 1)) [.int (-1)] = .ok (.ok true) ∧
      renderText "\x7b\x7b x is divisibleby(-1) \x7d\x7d" (.ofList [("x", .int (Int64.minValue + 1))]) .english =
        .ok "true" := by
  have next : ¬IsLeastByMinusOne "divisibleby" (.int (Int64.minValue + 1)) [.int (-1)] := by
    rintro ⟨-, least, -⟩
    exact absurd (Value.int.inj least) (by decide)
  have checked := (arithmetic_of_templates .empty).2.2.2.2.2.1 "divisibleby" _ _ next
  exact ⟨checked.1, by decide +kernel⟩

/-- Whether the least integer is a multiple of minus one, the program stops for. -/
theorem test_stops_for_least :
    Machine.test "divisibleby" (.int Int64.minValue) [.int (-1)] = .error .overflow ∧
      renderText "\x7b\x7b x is divisibleby(-1) \x7d\x7d" (.ofList [("x", .int Int64.minValue)]) .english =
        .error .remainderOverflow :=
  ⟨rfl, by decide +kernel⟩

end Template

end Folio
