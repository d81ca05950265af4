import Folio.Proofs.Analysis.Occurrence
import Folio.Proofs.Analysis.Order
import Folio.Proofs.Template.Characters
import Folio.Proofs.Template.Subscript
import Mathlib

/-! The fronts of a dotted path. A path is supplied up to some step and lacks a value at every step behind it, and what
is reported of the chain that it is read as are the fronts that lead to these steps, shorter ones first. -/
namespace Folio

open Node (at? localsAt walkAll)
open Template (reserved parse mem_ascending)

variable {ns : Namespace} {locals : List String}

/-! ### What is reported at all -/

theorem Expr.hasValueAt_of_mem_missing {e : Expr} {path : String} (m : path ∈ e.missing ns locals) :
    ns.hasValueAt path = false := by
  obtain ⟨inner, -, -, m⟩ := mem_missing_iff_exposes.1 m
  rw [missingPath] at m
  split at m
  · split at m
    · cases m
    · rename_i nowhere
      rw [Bool.or_eq_true, not_or, Bool.not_eq_true, Bool.not_eq_true] at nowhere
      exact List.mem_singleton.1 m ▸ nowhere.2
  · cases m

/-- A walk finds only paths without a value. -/
theorem Node.hasValueAt_of_mem_missing_walkAll {nodes : List Node} {path : String}
    (m : path ∈ (walkAll ns locals nodes).1.missing) : ns.hasValueAt path = false := by
  obtain ⟨address, node, inner, -, -, m⟩ := mem_missing_walkAll_iff.1 m
  have arguments (m : path ∈ Expr.missingAll ns inner node.arguments) : ns.hasValueAt path = false := by
    obtain ⟨e, -, m⟩ := Expr.mem_missingAll_iff.1 m
    exact Expr.hasValueAt_of_mem_missing m
  cases node with
  | output e => exact Expr.hasValueAt_of_mem_missing m
  | _ => exact arguments m

namespace Survey

/-- The entry is that of an inclusion, or a path without a value. -/
def Vacant (ns : Namespace) (entry : String) : Prop :=
  (∃ name, entry = missingInclusion name) ∨ ns.hasValueAt entry = false

/-- What a survey reports in the end, where it has found some paths already: these in ascending order, and vacant
entries besides. -/
def Extends (ns : Namespace) (found : List String) (s : Survey) : Prop :=
  ∀ missing, s.outcome = .ok missing →
    ∃ more, missing = ascending (found ++ more) ∧ ∀ entry ∈ more, Vacant ns entry

variable {loader : Loader} {found : List String}

theorem Extends.of_append {more : List String} {s : Survey} (h : Extends ns (found ++ more) s)
    (vacant : ∀ entry ∈ more, Vacant ns entry) : Extends ns found s := by
  intro missing outcome
  obtain ⟨later, rfl, rest⟩ := h missing outcome
  exact ⟨more ++ later, by rw [List.append_assoc], List.forall_mem_append.2 ⟨vacant, rest⟩⟩

theorem extends_followWith {goOn : List String → List String → List Inclusion → Survey}
    (h : ∀ requested found waiting, Extends ns found (goOn requested found waiting)) (waiting : List Inclusion) :
    ∀ requested found, Extends ns found (followWith ns loader goOn requested found waiting) := by
  have absent (name : String) : ∀ entry ∈ [missingInclusion name], Vacant ns entry :=
    List.forall_mem_singleton.2 (.inl ⟨name, rfl⟩)
  induction waiting with
  | nil =>
    intro requested found missing outcome
    cases outcome
    exact ⟨[], by rw [List.append_nil], nofun⟩
  | cons next waiting ih =>
    intro requested found
    rw [followWith]
    split
    · exact ih requested found
    · dsimp only
      split
      · split
        · exact ih _ found
        · exact (ih _ _).of_append (absent next.name)
      · exact (ih _ _).of_append (absent next.name)
      · split
        · exact fun missing outcome => by cases outcome
        · exact (h _ _ _).of_append fun entry m => .inr (Node.hasValueAt_of_mem_missing_walkAll m)

theorem extends_follow (budget : Nat) : ∀ requested found waiting,
    Extends ns found (follow ns loader budget requested found waiting) := by
  induction budget with
  | zero =>
    exact fun requested found waiting =>
      extends_followWith (fun _ _ _ missing outcome => by cases outcome) waiting requested found
  | succ budget ih => exact fun requested found waiting => extends_followWith ih waiting requested found

/-- What the walk of the template itself finds is reported. -/
theorem extends_run {source : String} {nodes : List Node} (parsed : parse source = .ok nodes) :
    Extends ns (walkAll ns [] nodes).1.missing (run source ns loader) := by
  rw [run, parsed]
  exact extends_follow _ _ _ _

end Survey

/-! ### Chains -/

namespace Expr

variable {name : String} {keys : List Value} {path : String}

theorem Exposes.missing_subset {e inner : Expr} {called : Bool} (h : e.Exposes inner called) :
    inner.missing ns locals ⊆ e.missing ns locals :=
  h.head_induction_on (motive := fun outer _ => inner.missing ns locals ⊆ outer.1.missing ns locals)
    (List.Subset.refl _) fun uses _ subset => List.Subset.trans subset (Uses.missing_subset uses)

theorem root?_chain (name : String) (keys : List Value) : (chain name keys).root? = some name := by
  induction keys using List.reverseRecOn with
  | nil => rfl
  | append_singleton keys key ih => rw [chain_concat, root?, ih]

theorem mem_missing_chain {keys : List Value} : path ∈ (chain name keys).missing ns locals ↔
    ∃ i ≤ keys.length, path ∈ missingPath ns locals (chain name (keys.take i)) := by
  induction keys using List.reverseRecOn with
  | nil => simp [chain, missing]
  | append_singleton keys key ih =>
    have fewer {i : Nat} (short : i ≤ keys.length) : (keys ++ [key]).take i = keys.take i :=
      List.take_append_of_le_length short
    rw [chain_concat, missing, missing, List.append_nil, List.mem_append, ih, ← chain_concat]
    constructor
    · rintro (m | ⟨i, short, m⟩)
      · exact ⟨_, le_refl _, by rwa [List.take_length]⟩
      · exact ⟨i, by simp; omega, by rwa [fewer short]⟩
    · rintro ⟨i, short, m⟩
      rw [List.length_append, List.length_singleton] at short
      rcases Nat.lt_or_eq_of_le short with short | rfl
      · have short := Nat.le_of_lt_succ short
        exact .inr ⟨i, short, by rwa [fewer short] at m⟩
      · refine .inl ?_
        rwa [List.take_of_length_le (by simp)] at m

theorem missingPath_chain (segment : ∀ key ∈ keys, key.isSegment) (free : name ∉ locals) :
    missingPath ns locals (chain name keys) =
      if ns.hasValueAt (Namespace.dotted name (keys.map Value.text)) then []
      else [Namespace.dotted name (keys.map Value.text)] := by
  simp [missingPath, path?_chain segment, isLocal, root?_chain, free]

end Expr

/-! ### Fronts -/

namespace Namespace

theorem lt_dotted (name : String) {rest : List String} (h : rest ≠ []) : name < dotted name rest := by
  obtain ⟨segment, rest, rfl⟩ := List.exists_cons_of_ne_nil h
  rw [String.lt_iff, toList_dotted]
  have longer := List.Lex.append_left (· < ·) (List.Lex.nil (a := '.')
    (l := segment.toList ++ rest.flatMap (fun segment => '.' :: segment.toList))) name.toList
  rwa [List.append_nil] at longer

end Namespace

namespace DottedPath

variable (path : DottedPath)

/-- The number of steps, of which the root is the first. -/
def length : Nat :=
  path.rest.length + 1

/-- The path up to a step. -/
def front (i : Nat) : String :=
  Namespace.dotted path.root ((path.rest.take (i - 1)).map Segment.text)

/-- All fronts of the path, the path itself at the end. -/
def fronts : List String :=
  (List.range' 1 path.length).map path.front

/-- The number of steps up to the last one where the path has a value, zero if it has one nowhere. -/
def supplied (ns : Namespace) : Nat :=
  Nat.findGreatest (fun i => ns.hasValueAt (path.front i)) path.length

variable {path} {i j : Nat}

theorem segments_front (path : DottedPath) (i : Nat) :
    Namespace.segments (path.front i) = path.root :: (path.rest.take (i - 1)).map Segment.text :=
  path.segments_dotted _

theorem hasValueAt_front_of_le (short : i ≤ j) (value : ns.hasValueAt (path.front j)) :
    ns.hasValueAt (path.front i) := by
  refine Namespace.hasValueAt_of_segments_prefix ?_ value
  rw [segments_front, segments_front, List.cons_prefix_cons]
  exact ⟨rfl, (List.take_prefix_take_left (Nat.sub_le_sub_right short 1)).map _⟩

/-- The path has a value at every step up to the last one where it has one, and at no step behind it. -/
theorem hasValueAt_front_iff (first : 1 ≤ i) (last : i ≤ path.length) :
    ns.hasValueAt (path.front i) ↔ i ≤ path.supplied ns := by
  constructor
  · exact Nat.le_findGreatest (P := fun i => ns.hasValueAt (path.front i)) last
  · intro short
    have value : ns.hasValueAt (path.front (path.supplied ns)) :=
      Nat.findGreatest_of_ne_zero (P := fun i => ns.hasValueAt (path.front i)) rfl (by omega)
    exact hasValueAt_front_of_le short value

theorem hasValueAt_front_eq_false_iff (first : 1 ≤ i) (last : i ≤ path.length) :
    ns.hasValueAt (path.front i) = false ↔ path.supplied ns < i := by
  rw [← Nat.not_le, ← hasValueAt_front_iff first last, Bool.not_eq_true]

theorem front_lt_front (first : 1 ≤ i) (later : i < j) (last : j ≤ path.length) : path.front i < path.front j := by
  have more : ((path.rest.take (j - 1)).drop (i - 1)).map Segment.text ≠ [] := by
    rw [Ne, List.map_eq_nil_iff, List.drop_eq_nil_iff, List.length_take]
    rw [length] at last
    omega
  have split := List.take_append_drop (i - 1) (path.rest.take (j - 1))
  rw [List.take_take, Nat.min_eq_left (by omega)] at split
  rw [front, front, ← split, List.map_append, Namespace.dotted_append]
  exact Namespace.lt_dotted _ more

theorem mem_drop_fronts {x : String} (k : Nat) :
    x ∈ path.fronts.drop k ↔ ∃ i, 1 ≤ i ∧ i ≤ path.length ∧ k < i ∧ x = path.front i := by
  rw [fronts, ← List.map_drop, List.drop_range', List.mem_map]
  refine exists_congr fun i => ?_
  rw [List.mem_range'_1, eq_comm (a := x)]
  constructor
  · rintro ⟨bounds, rfl⟩
    exact ⟨by omega, by omega, by omega, rfl⟩
  · rintro ⟨first, last, behind, rfl⟩
    exact ⟨by omega, rfl⟩

theorem pairwise_fronts (path : DottedPath) : path.fronts.Pairwise (· < ·) := by
  rw [fronts, List.pairwise_map]
  refine (List.pairwise_lt_range' 1).imp_of_mem fun mi mj later => ?_
  rw [List.mem_range'_1] at mi mj
  exact front_lt_front mi.1 later (by omega)

/-! ### Fronts that are reported -/

open Segment (Spaced)
open Folio.Expr (chain)

section Read

variable (precise : ∀ segment ∈ path.rest, segment.isExact) (spaced : Spaced path.rest)
include precise spaced

/-- Of the chain that a path is read as, the fronts without a value are reported. -/
theorem mem_missing_read (free : path.root ∉ locals) {x : String} :
    x ∈ path.read.missing ns locals ↔ x ∈ path.fronts.drop (path.supplied ns) := by
  have own (i : Nat) : Expr.missingPath ns locals (chain path.root ((path.rest.map Segment.key).take i)) =
      if ns.hasValueAt (path.front (i + 1)) then [] else [path.front (i + 1)] := by
    have text : ((path.rest.take i).map Segment.key).map Value.text = (path.rest.take i).map Segment.text :=
      Segment.map_text_key fun segment m => precise segment (List.mem_of_mem_take m)
    rw [← List.map_take, Expr.missingPath_chain Segment.isSegment_of_mem_map_key free, text]
    rfl
  have reported (i : Nat) : x ∈ Expr.missingPath ns locals (chain path.root ((path.rest.map Segment.key).take i)) ↔
      ns.hasValueAt (path.front (i + 1)) = false ∧ x = path.front (i + 1) := by
    rw [own]
    cases ns.hasValueAt (path.front (i + 1)) <;> simp
  rw [read, Segment.keys_of_spaced spaced, Expr.mem_missing_chain, mem_drop_fronts, List.length_map]
  constructor
  · rintro ⟨i, short, m⟩
    obtain ⟨nowhere, rfl⟩ := (reported i).1 m
    have last : i + 1 ≤ path.length := Nat.succ_le_succ short
    exact ⟨i + 1, by omega, last, (hasValueAt_front_eq_false_iff (by omega) last).1 nowhere, rfl⟩
  · rintro ⟨i, first, last, behind, rfl⟩
    obtain ⟨i, rfl⟩ := Nat.exists_eq_add_one.2 first
    exact ⟨i, Nat.le_of_succ_le_succ last, (reported i).2 ⟨(hasValueAt_front_eq_false_iff first last).2 behind, rfl⟩⟩

theorem run_output (free : path.root ∉ reserved) (ns : Namespace) (loader : Loader) :
    Survey.run path.output ns loader = ⟨[], .ok (path.fronts.drop (path.supplied ns))⟩ := by
  have : Std.Irrefl fun a b : String => a < b := ⟨String.lt_irrefl⟩
  have list : ascending (path.read.missing ns []) = path.fronts.drop (path.supplied ns) := by
    refine (pairwise_ascending _).eq_of_mem_iff (path.pairwise_fronts.drop) fun x => ?_
    rw [mem_ascending, mem_missing_read precise spaced List.not_mem_nil]
  rw [Survey.run_output (parse_output free precise), list]

end Read

/-- The chain of the path stands in an output that the analysis walks, below no default filter, and nothing binds its
root there. -/
def StandsIn (path : DottedPath) (ns : Namespace) (nodes : List Node) : Prop :=
  ∃ address e locals called, at? address nodes = some (.output e) ∧ localsAt ns address [] nodes = some locals ∧
    path.root ∉ locals ∧ e.Exposes path.read called

theorem StandsIn.fronts_subset {nodes : List Node} (stands : path.StandsIn ns nodes)
    (precise : ∀ segment ∈ path.rest, segment.isExact) (spaced : Spaced path.rest) :
    path.fronts.drop (path.supplied ns) ⊆ (walkAll ns [] nodes).1.missing := by
  obtain ⟨address, e, locals, called, output, visit, free, exposes⟩ := stands
  intro x m
  have here : x ∈ e.missing ns locals := exposes.missing_subset ((mem_missing_read precise spaced free).2 m)
  exact Node.mem_missing_walkAll_iff.2 ⟨address, .output e, locals, output, visit, here⟩

theorem colon_notMem_front (path : DottedPath) (i : Nat) : ':' ∉ (path.front i).toList := by
  have name {text : String} (proper : Template.isIdentifier text) : ':' ∉ text.toList := fun m =>
    absurd (Template.isIdentRest_of_isIdentifier proper ':' m) (by decide)
  have text (segment : Segment) : ':' ∉ segment.text.toList := by
    cases segment with
    | name text proper => exact name proper
    | index digits proper => exact fun m => absurd (Segment.isDigit_of_isIndex proper ':' m) (by decide)
  rw [front, Namespace.toList_dotted, List.flatMap_map, List.mem_append, List.mem_flatMap]
  rintro (m | ⟨segment, -, m⟩)
  · exact name path.proper m
  · exact text segment ((List.mem_cons.1 m).resolve_left (by decide))

/-- A front is no entry of an inclusion. -/
theorem hasValueAt_of_vacant_front (vacant : Survey.Vacant ns (path.front i)) :
    ns.hasValueAt (path.front i) = false := by
  refine vacant.resolve_left fun ⟨name, same⟩ => path.colon_notMem_front i ?_
  rw [same, missingInclusion, String.toList_append]
  exact List.mem_append_left _ (by decide)

/-- Wherever the chain of a path stands, its fronts without a value are reported and no other ones. -/
theorem StandsIn.mem_missing_iff {source : String} {nodes : List Node} {loader : Loader} {missing : List String}
    (stands : path.StandsIn ns nodes) (precise : ∀ segment ∈ path.rest, segment.isExact) (spaced : Spaced path.rest)
    (parsed : parse source = .ok nodes) (outcome : (Survey.run source ns loader).outcome = .ok missing)
    (first : 1 ≤ i) (last : i ≤ path.length) : path.front i ∈ missing ↔ path.supplied ns < i := by
  obtain ⟨more, rfl, vacant⟩ := Survey.extends_run parsed missing outcome
  rw [mem_ascending, List.mem_append]
  constructor
  · intro m
    rw [← hasValueAt_front_eq_false_iff first last]
    rcases m with m | m
    · exact Node.hasValueAt_of_mem_missing_walkAll m
    · exact hasValueAt_of_vacant_front (vacant _ m)
  · intro behind
    have m : path.front i ∈ path.fronts.drop (path.supplied ns) :=
      (mem_drop_fronts _).2 ⟨i, first, last, behind, rfl⟩
    exact .inl (stands.fronts_subset precise spaced m)

section Named

variable {segments : List Segment} (named : ∀ segment ∈ segments, segment.isNumber = false)
include named

theorem precise_of_named : ∀ segment ∈ segments, segment.isExact := by
  intro segment m
  cases segment with
  | name => rfl
  | index => cases named _ m

theorem spaced_of_named : Spaced segments := by
  induction segments with
  | nil => exact List.isChain_nil
  | cons segment segments ih =>
    rw [List.forall_mem_cons] at named
    refine List.isChain_cons.2 ⟨fun next first _ => ?_, ih named.2⟩
    exact named.2 next (List.mem_of_mem_head? first)

end Named

/-- A chain of names has values up to one step and at none behind it. Of the chain alone the fronts behind that step are
reported, in strictly ascending order, and wherever the chain stands in an output these are those of its fronts that are
reported. -/
theorem run_eq_drop_fronts (path : DottedPath) (free : path.root ∉ reserved)
    (named : ∀ segment ∈ path.rest, segment.isNumber = false) (ns : Namespace) (loader : Loader) :
    (∀ whole stop, Namespace.segments stop <+: Namespace.segments whole → ns.hasValueAt whole → ns.hasValueAt stop) ∧
      (∀ i, 1 ≤ i → i ≤ path.length → (ns.hasValueAt (path.front i) ↔ i ≤ path.supplied ns)) ∧
      Survey.run path.output ns loader = ⟨[], .ok (path.fronts.drop (path.supplied ns))⟩ ∧
      (path.fronts.drop (path.supplied ns)).Pairwise (· < ·) ∧
      ∀ source nodes missing, parse source = .ok nodes → path.StandsIn ns nodes →
        (Survey.run source ns loader).outcome = .ok missing →
          missing.Pairwise (· < ·) ∧
            ∀ i, 1 ≤ i → i ≤ path.length → (path.front i ∈ missing ↔ path.supplied ns < i) := by
  have precise := precise_of_named named
  have spaced := spaced_of_named named
  refine ⟨fun _ _ => Namespace.hasValueAt_of_segments_prefix, fun i => hasValueAt_front_iff,
    run_output precise spaced free ns loader, path.pairwise_fronts.drop, ?_⟩
  intro source nodes missing parsed stands outcome
  obtain ⟨more, rfl, -⟩ := Survey.extends_run parsed missing outcome
  exact ⟨pairwise_ascending _, fun i => stands.mem_missing_iff precise spaced parsed outcome⟩

/-- The address is there and has no city, in a template of its own and in the body of a loop over something else. -/
theorem run_of_address_without_city :
    let path : DottedPath := ⟨"client", by decide, [.name "address" (by decide), .name "city" (by decide)]⟩
    let ns : Namespace := .ofList [("client", .map [("address", .map [("city", .undefined)])])]
    let loader : Loader := ⟨fun _ => .ok none, 0⟩
    let source := "\x7b% for x in xs %\x7d\x7b\x7b x ~ client.address.city \x7d\x7d\x7b% endfor %\x7d"
    path.root ∉ reserved ∧ (∀ segment ∈ path.rest, segment.isNumber = false) ∧
      path.output = "\x7b\x7b client.address.city \x7d\x7d" ∧
      path.fronts = ["client", "client.address", "client.address.city"] ∧ path.supplied ns = 2 ∧
      Survey.run path.output ns loader = ⟨[], .ok ["client.address.city"]⟩ ∧
      ∃ nodes missing, parse source = .ok nodes ∧ path.StandsIn ns nodes ∧
        (Survey.run source ns loader).outcome = .ok missing ∧ path.front 2 ∉ missing ∧ path.front 3 ∈ missing := by
  intro path ns loader source
  have free : path.root ∉ reserved := by decide
  have named : ∀ segment ∈ path.rest, segment.isNumber = false := by decide
  have fronts : path.fronts = ["client", "client.address", "client.address.city"] := by decide
  have supplied : path.supplied ns = 2 := by decide +kernel
  obtain ⟨-, -, alone, -, anywhere⟩ := run_eq_drop_fronts path free named ns loader
  rw [fronts, supplied] at alone
  let e : Expr := .binary .concat (.var "x") path.read
  have parsed : parse source = .ok [.loop ["x"] (.var "xs") [.output e] none] := by
    rw [Template.parse_eq_parseChars rfl]
    cbv
  have stands : path.StandsIn ns [.loop ["x"] (.var "xs") [.output e] none] :=
    ⟨.inside 0 .here, e, ["x", loopName], false, rfl, rfl, by decide, .single (.binaryRight ..)⟩
  obtain ⟨missing, outcome⟩ : ∃ missing, (Survey.run source ns loader).outcome = .ok missing :=
    ⟨_, by rw [Survey.run, parsed]; rfl⟩
  have reported := (anywhere source _ missing parsed stands outcome).2
  rw [supplied] at reported
  refine ⟨free, named, by decide +kernel, fronts, supplied, alone, _, missing, parsed, stands, outcome, ?_, ?_⟩
  · rw [reported 2 (by decide) (by decide)]
    decide
  · rw [reported 3 (by decide) (by decide)]
    decide

end DottedPath

end Folio
