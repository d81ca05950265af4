import Folio.Proofs.Analysis.Coverage
import Folio.Proofs.Namespace.Dotted
import Mathlib.Data.List.Induction

/-! Chains of lookups by fixed keys against their dotted paths. A chain evaluates to what its keys lead to one by one,
while the analysis splits its path at the dots; the two agree in every namespace just if no step has a dot itself. -/
namespace Folio

/-- The value can be a segment of a dotted path: it is a text or an integer. -/
def Value.isSegment : Value → Bool
  | .string _ | .int _ => true
  | _ => false

namespace Expr

open Namespace (dotted descend segments single nested hasValueAt_of_dotted)
open Template (Setting Jumps Context eval)

/-- A variable with lookups by fixed keys behind it. -/
def chain (name : String) (keys : List Value) : Expr :=
  keys.foldl (fun base key => .lookup base (.literal key)) (.var name)

/-- The name and the fixed keys of a chain as texts, in their order. -/
def steps : Expr → List String
  | .var name => [name]
  | .lookup base (.literal key) => base.steps ++ [key.text]
  | _ => []

theorem chain_concat (name : String) (keys : List Value) (key : Value) :
    chain name (keys ++ [key]) = .lookup (chain name keys) (.literal key) :=
  List.foldl_append

theorem steps_chain (name : String) (keys : List Value) :
    (chain name keys).steps = name :: keys.map Value.text := by
  induction keys using List.reverseRecOn with
  | nil => rfl
  | append_singleton keys key ih =>
    rw [chain_concat, steps, ih, List.map_append]
    rfl

theorem path?_lookup (base : Expr) (key : Value) : (Expr.lookup base (.literal key)).path? =
    if key.isSegment then base.path?.map (· ++ "." ++ key.text) else none := by
  cases key <;> rfl

theorem path?_chain {name : String} {keys : List Value} (h : ∀ key ∈ keys, key.isSegment) :
    (chain name keys).path? = some (dotted name (keys.map Value.text)) := by
  induction keys using List.reverseRecOn with
  | nil => rfl
  | append_singleton keys key ih =>
    rw [List.forall_mem_append, List.forall_mem_singleton] at h
    rw [chain_concat, path?_lookup, if_pos h.2, ih h.1, List.map_append, Namespace.dotted_append]
    rfl

/-- What has a dotted path is a chain of lookups by texts and integers. -/
theorem exists_chain_of_path? {e : Expr} {path : String} (hp : e.path? = some path) :
    ∃ name keys, e = chain name keys ∧ ∀ key ∈ keys, key.isSegment := by
  fun_induction path? e generalizing path with
  | case1 name => exact ⟨name, [], rfl, fun _ m => by cases m⟩
  | case2 base segment ih | case3 base index ih =>
    obtain ⟨path, hb, -⟩ := Option.map_eq_some_iff.1 hp
    obtain ⟨name, keys, rfl, segments⟩ := ih hb
    refine ⟨name, keys ++ [_], (chain_concat name keys _).symm, ?_⟩
    rw [List.forall_mem_append, List.forall_mem_singleton]
    exact ⟨segments, rfl⟩
  | case4 => cases hp

theorem path?_chain_eq_none {name : String} {keys : List Value} {key : Value} (m : key ∈ keys)
    (h : key.isSegment = false) : (chain name keys).path? = none := by
  induction keys using List.reverseRecOn with
  | nil => cases m
  | append_singleton keys last ih =>
    rw [chain_concat, path?_lookup]
    rcases List.mem_append.1 m with m | m
    · rw [ih m, Option.map_none, ite_self]
    · rw [← List.mem_singleton.1 m, h]
      rfl

section Chains

variable {ns : Namespace} {context : Context} {name : String} {keys : List Value}

/-- A chain evaluates to what its keys lead to one after the other. -/
theorem eval_chain (within : context.Within ns []) (setting : Setting) (jumps : Jumps) (calls : Nat) (name : String)
    (keys : List Value) : eval setting jumps calls context (chain name keys) =
      .ok ((descend ((ns.get? name).getD .undefined) (keys.map Value.text)).getD .undefined) := by
  induction keys using List.reverseRecOn with
  | nil =>
    rw [chain, List.foldl_nil, eval, within.lookup List.not_mem_nil]
    rfl
  | append_singleton keys key ih =>
    rw [chain_concat, eval, ih, List.map_append, Namespace.descend_append]
    simp only [eval]
    cases descend ((ns.get? name).getD .undefined) (keys.map Value.text) with
    | none => rfl
    | some value =>
      cases found : value.segment? key.text <;> simp [descend, found, bind, Except.bind, pure, Except.pure]

theorem isLocal_nil (e : Expr) : e.isLocal [] = false := by
  simp [isLocal]

theorem missing_chain_concat (name : String) (keys : List Value) (key : Value) :
    (chain name (keys ++ [key])).missing ns [] =
      missingPath ns [] (chain name (keys ++ [key])) ++ (chain name keys).missing ns [] := by
  rw [chain_concat, missing, missing, List.append_nil]

/-- Nothing is reported of a chain just if its path has a value, since the shorter paths have one then. -/
theorem missing_chain_eq_nil_iff (h : ∀ key ∈ keys, key.isSegment) :
    (chain name keys).missing ns [] = [] ↔ ns.hasValueAt (dotted name (keys.map Value.text)) := by
  have own {keys : List Value} (h : ∀ key ∈ keys, key.isSegment) :
      missingPath ns [] (chain name keys) = [] ↔ ns.hasValueAt (dotted name (keys.map Value.text)) := by
    simp [missingPath, path?_chain h, isLocal_nil]
  induction keys using List.reverseRecOn with
  | nil =>
    rw [chain, List.foldl_nil, missing]
    have none : ∀ key ∈ ([] : List Value), key.isSegment := fun _ m => by cases m
    exact own none
  | append_singleton keys key ih =>
    have shorter := ih (List.forall_mem_append.1 h).1
    rw [missing_chain_concat, List.append_eq_nil_iff, own h]
    refine and_iff_left_of_imp fun whole => shorter.2 ?_
    rw [List.map_append, Namespace.dotted_append] at whole
    exact hasValueAt_of_dotted whole

/-- Behind a key that no path can have nothing more is reported. -/
theorem missing_chain_append {key : Value} (h : key.isSegment = false) (more : List Value) :
    (chain name (keys ++ key :: more)).missing ns [] = (chain name keys).missing ns [] := by
  have pathless {front : List Value} (m : key ∈ front) : missingPath ns [] (chain name front) = [] := by
    rw [missingPath, path?_chain_eq_none m h]
  induction more using List.reverseRecOn with
  | nil => rw [missing_chain_concat, pathless (by simp), List.nil_append]
  | append_singleton more last ih =>
    rw [← List.cons_append, ← List.append_assoc, missing_chain_concat, pathless (by simp), List.nil_append, ih]

theorem mem_missing_chain_iff (h : ∀ key ∈ keys, key.isSegment) :
    dotted name (keys.map Value.text) ∈ (chain name keys).missing ns [] ↔
      ns.hasValueAt (dotted name (keys.map Value.text)) = false := by
  constructor
  · intro m
    rw [Bool.eq_false_iff]
    intro value
    rw [(missing_chain_eq_nil_iff h).2 value] at m
    cases m
  · exact mem_missing (path?_chain h) (by rw [isLocal_nil]; exact nofun)

theorem eval_isDefined {setting : Setting} {jumps : Jumps} {calls : Nat} {e : Expr} {value : Value}
    (h : eval setting jumps calls context e = .ok value) :
    eval setting jumps calls context (.isDefined e) = .ok (.bool !value.isUndefined) := by
  rw [eval, h]
  rfl

theorem known?_isDefined {e : Expr} {path : String} (hp : e.path? = some path) :
    (Expr.isDefined e).known? ns [] = some (.bool (ns.hasValueAt path)) := by
  rw [known?, isLocal_nil, hp]
  rfl

end Chains

/-! ### Paths and steps -/

/-- Where the template has bound no variable itself, the expression evaluates to what stands at the path. The path is
reported to be missing just if that is nothing, and whether it is defined is known as it turns out. -/
def Follows (e : Expr) (path : String) : Prop :=
  ∀ ⦃ns : Namespace⦄ ⦃context : Context⦄, context.Within ns [] → ∀ (setting : Setting) (jumps : Jumps) (calls : Nat),
    eval setting jumps calls context e = .ok ((ns.at? path).getD .undefined) ∧
    (path ∈ e.missing ns [] ↔ eval setting jumps calls context e = .ok .undefined) ∧
    ∃ defined, (Expr.isDefined e).known? ns [] = some (.bool defined) ∧
      eval setting jumps calls context (.isDefined e) = .ok (.bool defined)

/-- In some namespace the expression has a value while nothing stands at the path, so that the path is reported to be
missing and the expression is taken not to be defined. -/
def Strays (e : Expr) (path : String) : Prop :=
  ∃ ns : Namespace, ns.at? path = none ∧ path ∈ e.missing ns [] ∧
    (Expr.isDefined e).known? ns [] = some (.bool false) ∧
    ∀ (setting : Setting) (jumps : Jumps) (calls : Nat),
      eval setting jumps calls (.ofNamespace ns) e = .ok (.int 1) ∧
      eval setting jumps calls (.ofNamespace ns) (.isDefined e) = .ok (.bool true)

theorem Strays.not_follows {e : Expr} {path : String} (h : e.Strays path) : ¬ e.Follows path := by
  obtain ⟨ns, nowhere, -, -, evaluates⟩ := h
  intro follows
  have value := (follows (Context.within_ofNamespace ns) (.alone .english) (.within (.alone .english) 0) 0).1
  rw [(evaluates _ _ _).1, nowhere] at value
  cases value

section Chains

variable {name : String} {keys : List Value} (hk : ∀ key ∈ keys, key.isSegment)
include hk

theorem follows_chain (undotted : ∀ step ∈ name :: keys.map Value.text, '.' ∉ step.toList) :
    (chain name keys).Follows (dotted name (keys.map Value.text)) := by
  intro ns context within setting jumps calls
  have split := Namespace.segments_dotted_of_undotted undotted
  have value := eval_chain within setting jumps calls name keys
  rw [← ns.getD_at?_of_segments split] at value
  refine ⟨value, ?_, ns.hasValueAt (dotted name (keys.map Value.text)), known?_isDefined (path?_chain hk), ?_⟩
  · rw [mem_missing_chain_iff hk, value, Namespace.hasValueAt_eq]
    cases (ns.at? (dotted name (keys.map Value.text))).getD .undefined <;> simp [Value.isUndefined]
  · rw [eval_isDefined value, Namespace.hasValueAt_eq]

/-- In the namespace that the steps themselves lead through, the path does not follow a step with a dot. -/
theorem strays_chain {step : String} (m : step ∈ name :: keys.map Value.text) (dot : '.' ∈ step.toList) :
    (chain name keys).Strays (dotted name (keys.map Value.text)) := by
  let ns := single name (keys.map Value.text)
  have nowhere : ns.at? (dotted name (keys.map Value.text)) = none := by
    rw [Namespace.at?_single, if_neg]
    rw [Namespace.segments_dotted, ← List.flatMap_cons]
    exact Namespace.not_flatMap_segments_prefix m dot
  have missing : ns.hasValueAt (dotted name (keys.map Value.text)) = false := by
    rw [Namespace.hasValueAt, nowhere]
    rfl
  have known : (Expr.isDefined (chain name keys)).known? ns [] = some (.bool false) := by
    rw [known?_isDefined (path?_chain hk), missing]
  refine ⟨ns, nowhere, (mem_missing_chain_iff hk).2 missing, known, fun setting jumps calls => ?_⟩
  have value := eval_chain (Context.within_ofNamespace ns) setting jumps calls name keys
  have leads : descend ((ns.get? name).getD .undefined) (keys.map Value.text) = some (.int 1) := by
    rw [Namespace.get?_single, if_pos rfl, Option.getD_some, Namespace.descend_nested, if_pos List.prefix_rfl,
      List.drop_length]
    rfl
  rw [leads] at value
  exact ⟨value, eval_isDefined value⟩

end Chains

/-- A chain of lookups evaluates to what stands at its dotted path, and is analysed by it, just if none of its steps has
a dot. A step with a dot makes the path lead elsewhere in some namespace. -/
theorem follows_iff {e : Expr} {path : String} (hp : e.path? = some path) :
    (e.Follows path ↔ ∀ step ∈ e.steps, '.' ∉ step.toList) ∧
      (e.Strays path ↔ ∃ step ∈ e.steps, '.' ∈ step.toList) := by
  obtain ⟨name, keys, rfl, segment⟩ := exists_chain_of_path? hp
  rw [path?_chain segment] at hp
  cases hp
  rw [steps_chain]
  have follows : (∀ step ∈ name :: keys.map Value.text, '.' ∉ step.toList) → (chain name keys).Follows _ :=
    follows_chain segment
  have strays : (∃ step ∈ name :: keys.map Value.text, '.' ∈ step.toList) → (chain name keys).Strays _ :=
    fun ⟨_, m, dot⟩ => strays_chain segment m dot
  refine ⟨⟨fun h step m dot => (strays ⟨step, m, dot⟩).not_follows h, follows⟩, fun h => ?_, strays⟩
  by_contra none
  exact h.not_follows (follows fun step m dot => none ⟨step, m, dot⟩)

/-- An index, a name and a text with a dash are followed, and a text with a dot is not. -/
theorem follows_of_dash_and_strays_of_dot :
    (chain "items" [.int 0, .string "name", .string "first-line"]).Follows "items.0.name.first-line" ∧
      (chain "a" [.string "s.t"]).Strays "a.s.t" :=
  ⟨(follows_iff rfl).1.2 (by decide), (follows_iff rfl).2.2 ⟨"s.t", by decide, by decide⟩⟩

/-- The field `s.t` of `a` is there, but the path `a.s.t` is found to be missing and not to be defined. -/
theorem value_at_dotted_key :
    let ns : Namespace := .ofList [("a", .map [("s.t", .int 1)])]
    (Template.Parser.expression 9 ⟨"a['s.t']".toList, false⟩).toOption.map (fun (e, _) => (e.path?,
      (eval (.alone .english) (.within (.alone .english) 0) 0 (.ofNamespace ns) e).toOption.map Value.text,
      (ns.at? "a.s.t").isSome, e.missing ns [], (e.isDefined.truth ns []))) =
      some (some "a.s.t", some "1", false, ["a.s.t"], .false) := by
  decide +kernel

end Expr

end Folio
