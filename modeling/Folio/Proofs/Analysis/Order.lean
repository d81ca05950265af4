import Folio.Proofs.Analysis.Reach
import Folio.Proofs.Template.Characters
import Mathlib.Data.List.Sort

/-! The order of inclusions. A survey visits a name once, in the inclusion that it comes to first. What it reports does
not depend on the order of the tags it starts with, apart from what is found in or behind a name that it can come to in
two inclusions whose visits find different things. -/
namespace Folio

open Template (mem_ascending)

theorem pairwise_ascending (names : List String) : (ascending names).Pairwise (· < ·) :=
  List.pairwise_map.2 (Fields.sorted_ofList _)

theorem ascending_congr {names other : List String} (same : ∀ name, name ∈ names ↔ name ∈ other) :
    ascending names = ascending other := by
  have : Std.Irrefl fun a b : String => a < b := ⟨String.lt_irrefl⟩
  refine (pairwise_ascending names).eq_of_mem_iff (pairwise_ascending other) fun name => ?_
  rw [mem_ascending, mem_ascending, same]

/-! ### Tags -/

/-- An inclusion of a fixed name as it stands in a template. -/
structure InclusionTag where
  name : String
  ignoreMissing : Bool
  withContext : Bool
  deriving DecidableEq

namespace InclusionTag

variable {source : String} {tag : InclusionTag} {tags : List InclusionTag} {node : Node} {nodes : List Node}

def toNode (tag : InclusionTag) : Node :=
  .inclusion (.literal (.string tag.name)) tag.ignoreMissing tag.withContext

def ofNode? : Node → Option InclusionTag
  | .inclusion (.literal (.string name)) ignoreMissing withContext => some ⟨name, ignoreMissing, withContext⟩
  | _ => none

/-- The tags that a template is made of, if it is made of nothing else. -/
def read? (source : String) : Option (List InclusionTag) :=
  (Template.parse source).toOption.bind (·.mapM ofNode?)

theorem eq_toNode (h : ofNode? node = some tag) : node = tag.toNode := by
  unfold ofNode? at h
  split at h <;> cases h
  rfl

theorem eq_map_toNode (h : nodes.mapM ofNode? = some tags) : nodes = tags.map toNode := by
  induction nodes generalizing tags with
  | nil => cases h; rfl
  | cons node nodes ih =>
    simp only [List.mapM_cons, bind, Option.bind_eq_some_iff, pure, Option.some.injEq] at h
    obtain ⟨tag, first, rest, others, rfl⟩ := h
    rw [eq_toNode first, ih others, List.map_cons]

theorem parse_of_read? (h : read? source = some tags) : Template.parse source = .ok (tags.map toNode) := by
  rw [read?] at h
  cases parse : Template.parse source with
  | error => rw [parse] at h; cases h
  | ok nodes => rw [parse] at h; exact congrArg _ (eq_map_toNode h)

/-- What a survey follows where no name is bound. The empty name is not followed. -/
def inclusion? (tag : InclusionTag) : Option Inclusion :=
  if tag.name.isEmpty then none else some ⟨tag.name, tag.ignoreMissing, []⟩

/-- The inclusions that a survey of the tags starts with. -/
def inclusions (tags : List InclusionTag) : List Inclusion :=
  tags.filterMap inclusion?

theorem walkAll_map_toNode (ns : Namespace) (tags : List InclusionTag) :
    Node.walkAll ns [] (tags.map toNode) = (⟨[], inclusions tags⟩, []) := by
  induction tags with
  | nil => rfl
  | cons tag tags ih =>
    have here : Node.walk ns [] tag.toNode = (⟨[], tag.inclusion?.toList⟩, []) := by
      by_cases empty : tag.name.isEmpty <;>
        simp [toNode, Node.walk, Expr.knownText?, Expr.known?, inclusion?, empty, Findings.none]
    rw [List.map_cons, Node.walkAll, here]
    simp only [ih]
    cases follows : tag.inclusion? <;> simp [inclusions, follows] <;> rfl

end InclusionTag

/-- The findings agree apart from order and repetition. -/
def Findings.Alike (a b : Findings) : Prop :=
  ascending a.missing = ascending b.missing ∧ ascending a.names = ascending b.names

instance (a b : Findings) : Decidable (a.Alike b) :=
  inferInstanceAs (Decidable (_ ∧ _))

namespace Findings.Alike

variable {a b : Findings}

theorem missing_subset (h : a.Alike b) : a.missing ⊆ b.missing :=
  fun _ m => mem_ascending.1 (h.1 ▸ mem_ascending.2 m)

theorem names_subset (h : a.Alike b) : a.names ⊆ b.names :=
  fun _ m => mem_ascending.1 (h.2 ▸ mem_ascending.2 m)

end Findings.Alike

theorem Loader.parses_ofList {texts : List (String × String)}
    (h : ∀ entry ∈ texts, (Template.parse entry.2).isOk = true) (name text : String)
    (load : (Loader.ofList texts).load name = .ok (some text)) : ∃ nodes, Template.parse text = .ok nodes := by
  obtain ⟨before, after, rfl, -⟩ := List.lookup_eq_some_iff.1 (Except.ok.inj load)
  have parses := h (name, text) (by simp)
  cases parse : Template.parse text with
  | ok nodes => exact ⟨nodes, rfl⟩
  | error => rw [parse] at parses; cases parses

namespace Survey

/-! ### Disputes -/

section Disputed

variable (ns : Namespace) (loader : Loader) (first : List Inclusion)

/-- The survey can come to the inclusion, and to one of the same name whose visit finds something else. -/
def Contested (inclusion : Inclusion) : Prop :=
  Reachable ns loader first inclusion ∧ ∃ other, Reachable ns loader first other ∧ other.name = inclusion.name ∧
    ¬ (visit ns loader inclusion).Alike (visit ns loader other)

/-- The entry is found in a contested inclusion or behind it. -/
def Disputed (entry : String) : Prop :=
  ∃ outer, Contested ns loader first outer ∧ Findable ns loader [outer] entry

end Disputed

variable {ns : Namespace} {loader : Loader} {first other : List Inclusion} {inclusion : Inclusion}
variable {found asked all : List String} {entry : String}

theorem Reachable.mono (sub : first ⊆ other) (h : Reachable ns loader first inclusion) :
    Reachable ns loader other inclusion := by
  induction h with
  | first m => exact .first (sub m)
  | inside _ load parse m ih => exact ih.inside load parse m

/-- A list that is closed under visits has whatever the survey comes to. -/
theorem Reachable.mem_of_closed {all : List Inclusion} (sub : first ⊆ all)
    (closed : ∀ outer ∈ all, (visit ns loader outer).inclusions ⊆ all) (h : Reachable ns loader first inclusion) :
    inclusion ∈ all := by
  induction h with
  | first m => exact sub m
  | inside _ load parse m ih => exact closed _ ih (visit_of_text load parse ▸ m)

theorem Findable.mono (sub : first ⊆ other) : Findable ns loader first entry → Findable ns loader other entry :=
  fun ⟨inclusion, reached, m⟩ => ⟨inclusion, reached.mono sub, m⟩

theorem Disputed.mono (sub : first ⊆ other) : Disputed ns loader first entry → Disputed ns loader other entry := by
  rintro ⟨outer, ⟨reached, rival, reached', same, differ⟩, behind⟩
  exact ⟨outer, ⟨reached.mono sub, rival, reached'.mono sub, same, differ⟩, behind⟩

/-- A name that was requested is explored in every inclusion that is not contested. -/
theorem Complete.explored_or_contested (complete : Complete ns loader first first [] found asked all)
    (h : Reachable ns loader first inclusion) (named : inclusion.name ∈ asked) :
    Explored ns loader asked all inclusion ∨ Contested ns loader first inclusion := by
  obtain ⟨visited, reached, same, explored⟩ := (complete.explored _ named).resolve_left List.not_mem_nil
  by_cases alike : (visit ns loader inclusion).Alike (visit ns loader visited)
  · exact .inl ⟨List.Subset.trans alike.missing_subset explored.1, List.Subset.trans alike.names_subset explored.2⟩
  · exact .inr ⟨h, visited, reached, same, alike⟩

/-- The name of whatever the survey can come to is requested, unless the way there leads through a contested
inclusion. -/
theorem Complete.asked_or_contested (complete : Complete ns loader first first [] found asked all)
    (h : Reachable ns loader first inclusion) :
    inclusion.name ∈ asked ∨ ∃ outer, Contested ns loader first outer ∧ Reachable ns loader [outer] inclusion := by
  -- On the way to it: the visit that was made of an uncontested name led on to the same names.
  induction h with
  | first m => exact .inl (complete.waiting (List.mem_map_of_mem m))
  | @inside outer inclusion _ _ reached load parse m ih =>
    rcases ih with named | ⟨origin, contested, behind⟩
    · rcases complete.explored_or_contested reached named with explored | contested
      · exact .inl ((explored.of_text load parse).2 (List.mem_map_of_mem m))
      · exact .inr ⟨outer, contested, .inside (.first (by simp)) load parse m⟩
    · exact .inr ⟨origin, contested, behind.inside load parse m⟩

/-- What any visit finds is reported unless it is disputed. -/
theorem Complete.mem_or_disputed (complete : Complete ns loader first first [] found asked all)
    (h : Reachable ns loader first inclusion) (m : entry ∈ (visit ns loader inclusion).missing) :
    entry ∈ all ∨ Disputed ns loader first entry := by
  rcases complete.asked_or_contested h with named | ⟨outer, contested, behind⟩
  · rcases complete.explored_or_contested h named with explored | contested
    · exact .inl (explored.1 m)
    · exact .inr ⟨inclusion, contested, inclusion, .first (by simp), m⟩
  · exact .inr ⟨outer, contested, inclusion, behind, m⟩

/-- What is reported and not disputed does not depend on the way of the search. -/
theorem Complete.mem_iff_findable (complete : Complete ns loader first first [] [] asked all)
    (settled : ¬ Disputed ns loader first entry) : entry ∈ all ↔ Findable ns loader first entry :=
  ⟨fun m => (complete.sound entry m).resolve_left List.not_mem_nil,
    fun ⟨_, reached, m⟩ => (complete.mem_or_disputed reached m).resolve_right settled⟩

/-- A name that a tag requires and that has no text is reported, unless the survey can come to an inclusion that leaves
it open. -/
theorem Complete.mem_of_required (complete : Complete ns loader first first [] found asked all) (m : inclusion ∈ first)
    (load : loader.load inclusion.name = .ok none)
    (required : ∀ rival, Reachable ns loader first rival → rival.name = inclusion.name → rival.ignoreMissing = false) :
    missingInclusion inclusion.name ∈ all := by
  have named := complete.waiting (List.mem_map_of_mem m)
  obtain ⟨visited, reached, same, explored⟩ := (complete.explored _ named).resolve_left List.not_mem_nil
  have absent : visit ns loader visited = _ := visit_of_absent (same ▸ load)
  exact explored.1 (by simp [absent, required visited reached same, same])

/-! ### Surveys of tags -/

theorem exists_complete_of_tags {tags : List InclusionTag} {source : String} (ns : Namespace) (finite : loader.IsFinite)
    (parses : ∀ name text, loader.load name = .ok (some text) → ∃ nodes, Template.parse text = .ok nodes)
    (read : InclusionTag.read? source = some tags) :
    ∃ asked all, (run source ns loader).outcome = .ok (ascending all) ∧
      Complete ns loader (InclusionTag.inclusions tags) (InclusionTag.inclusions tags) [] [] asked all := by
  have complete := exists_complete ns finite parses (InclusionTag.parse_of_read? read)
  rwa [InclusionTag.walkAll_map_toNode] at complete

end Survey

end Folio
