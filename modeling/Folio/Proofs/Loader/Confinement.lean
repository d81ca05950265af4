import Folio.Loader
import Folio.Proofs.Path.Joining

/-! Inclusions stay below their root. A walk along the components of a name is followed step by step, by the names that
lead from where it starts to where it stands. The path of an inclusion is the root with components behind it along which
no walk leaves the root at any point, so that two trees which are alike at the root have the same inclusions. A name
along which a walk would leave the root has no path, and no file is read for it. -/
namespace Folio

namespace Path

/-! ### Walks -/

/-- One step of a walk. It stands below the directory in which it started, where the names lead, the last one first;
there is no such place when the step leads out of the directory. -/
def step? (below : List (List Char)) : Component → Option (List (List Char))
  | .root => none
  | .current => some below
  | .parent => below.tail?
  | .name text => some (text :: below)

/-- Where a walk along components stands in the end. -/
def follow? (below : List (List Char)) (steps : List Component) : Option (List (List Char)) :=
  steps.foldlM step? below

/-- At some point a walk along the components leaves the directory in which it starts. -/
def Leaves (steps : List Component) : Prop :=
  ∃ front, front <+: steps ∧ follow? [] front = none

variable {steps : List Component} {name : String} {c : Component}

theorem step?_of_isInner (h : c.isInner) (below : List (List Char)) : ∃ next, step? below c = some next := by
  cases c with
  | root | parent => cases h
  | current => exact ⟨below, rfl⟩
  | name text => exact ⟨text :: below, rfl⟩

theorem follow?_of_isInner (h : ∀ c ∈ steps, c.isInner) (below : List (List Char)) :
    ∃ there, follow? below steps = some there := by
  induction steps generalizing below with
  | nil => exact ⟨below, rfl⟩
  | cons c steps ih =>
    rw [List.forall_mem_cons] at h
    obtain ⟨next, step⟩ := step?_of_isInner h.1 below
    rw [follow?, List.foldlM_cons, step]
    exact ih h.2 next

/-- Steps that lead to where they start or further in do not leave. -/
theorem not_leaves_of_isInner (h : ∀ c ∈ steps, c.isInner) : ¬ Leaves steps := by
  rintro ⟨front, ⟨more, rfl⟩, left⟩
  obtain ⟨there, stays⟩ := follow?_of_isInner (fun c m => h c (List.mem_append_left more m)) []
  rw [stays] at left
  cases left

/-- What leads to where it starts or further in is a mark for here or a name, and no name is the mark for the parent. -/
theorem IsInner.eq_of_mem (h : IsInner name) :
    ∀ c ∈ components name, c = .current ∨ ∃ text, c = .name text ∧ text ≠ ['.', '.'] ∧ '/' ∉ text := by
  intro c m
  have origin : c = .current ∨ c ∈ named name := by
    obtain e | e := components_of_relative h.relative
    · exact .inr (e ▸ m)
    · exact List.mem_cons.1 (e ▸ m)
  refine origin.imp_right fun m => ?_
  obtain ⟨part, mp, stands⟩ := List.mem_filterMap.1 m
  have other := h.ne_parent part mp
  rw [component?, if_neg other] at stands
  split at stands
  · cases stands
  · exact ⟨part, (Option.some.inj stands).symm, other, Text.separator_notMem_of_mem_splitOn mp⟩

/-- What stands behind the components of the root leads where the name does. -/
theorem exists_components_join (root : String) (relative : isAbsolute name = false) :
    ∃ further, components (join root name) = components root ++ further ∧ (∀ c ∈ further, c ∈ components name) ∧
      follow? [] further = follow? [] (components name) := by
  by_cases empty : root = ""
  · have joined : join root name = name := by simp [join, empty]
    rw [joined, empty]
    exact ⟨components name, rfl, fun _ => id, rfl⟩
  · refine ⟨named name, components_join relative empty, fun _ => mem_components_of_mem_named, ?_⟩
    obtain e | e := components_of_relative relative
    · rw [e]
    · rw [e]
      rfl

end Path

namespace Loader

variable {root name path : String} {files files' : FileTree}

theorem inclusionPath?_eq_some_iff :
    inclusionPath? root name = some path ↔ Path.IsInner name ∧ Path.join root name = path := by
  rw [inclusionPath?, Path.IsInner, ← List.all_eq_true]
  by_cases inner : (Path.components name).all Path.Component.isInner
  · rw [if_pos inner, Option.some.injEq, and_iff_right inner]
  · rw [if_neg inner]
    simp [inner]

theorem inclusionPath?_eq_none_of_leaves (h : Path.isAbsolute name ∨ Path.Leaves (Path.components name)) :
    inclusionPath? root name = none := by
  refine Option.eq_none_iff_forall_ne_some.2 fun path found => ?_
  obtain ⟨inner, -⟩ := inclusionPath?_eq_some_iff.1 found
  rcases h with absolute | leaves
  · rw [inner.relative] at absolute
    cases absolute
  · exact Path.not_leaves_of_isInner inner leaves

theorem readInclusion_of_some {m : Type → Type} [Monad m] (found : inclusionPath? root name = some path)
    (read : String → m (Option String)) : readInclusion read root name = read path := by
  rw [readInclusion, found, Option.elim_some]

theorem readInclusion_of_none {m : Type → Type} [Monad m] (without : inclusionPath? root name = none)
    (read : String → m (Option String)) : readInclusion read root name = pure none := by
  rw [readInclusion, without, Option.elim_none]

theorem load_inclusions_congr (same : files.at? root = files'.at? root) (name : String) :
    (inclusions files root).load name = (inclusions files' root).load name := by
  simp only [inclusions]
  cases found : inclusionPath? root name with
  | none => rw [readInclusion_of_none found, readInclusion_of_none found]
  | some path =>
    obtain ⟨inner, rfl⟩ := inclusionPath?_eq_some_iff.1 found
    have there := FileTree.at?_join_congr inner same
    simp only [readInclusion_of_some found, FileTree.readIfPresent, FileTree.read, there]

/-- An inclusion that has a path is read there and nowhere else, and the path stays below the root: behind the
components of the root it has only names and marks for here, along which no walk leaves the root at any point, and it
leads where the name does. So what is included depends on what is at the root alone. An absolute name, and one along
which a walk leaves the root at some point, has no text, and whatever reading a file does, none is read for it. -/
theorem inclusions_confined (root name : String) :
    (∀ path, inclusionPath? root name = some path →
      (∃ further, Path.components path = Path.components root ++ further ∧
        (∀ c ∈ further, c = .current ∨ ∃ text, c = .name text ∧ text ≠ ['.', '.'] ∧ '/' ∉ text) ∧
        ¬ Path.Leaves further ∧ Path.follow? [] further = Path.follow? [] (Path.components name)) ∧
      ∀ (m : Type → Type) [Monad m] (read : String → m (Option String)), readInclusion read root name = read path) ∧
    (∀ files files' : FileTree, files.at? root = files'.at? root →
      (inclusions files root).load name = (inclusions files' root).load name) ∧
    (Path.isAbsolute name ∨ Path.Leaves (Path.components name) →
      inclusionPath? root name = none ∧ (∀ files, (inclusions files root).load name = .ok none) ∧
        ∀ (m : Type → Type) [Monad m] (read : String → m (Option String)),
          readInclusion read root name = pure none) := by
  refine ⟨fun path found => ⟨?_, fun m _ read => readInclusion_of_some found read⟩,
    fun files files' same => load_inclusions_congr same name, fun leaves => ?_⟩
  · obtain ⟨inner, rfl⟩ := inclusionPath?_eq_some_iff.1 found
    obtain ⟨further, behind, those, there⟩ := Path.exists_components_join root inner.relative
    exact ⟨further, behind, fun c m => inner.eq_of_mem c (those c m),
      Path.not_leaves_of_isInner fun c m => inner c (those c m), there⟩
  · have without : inclusionPath? root name = none := inclusionPath?_eq_none_of_leaves leaves
    exact ⟨without, fun files => readInclusion_of_none without files.readIfPresent,
      fun m _ read => readInclusion_of_none without read⟩

/-- A name with repeated slashes and marks for here, and one that climbs out of the root behind a name. -/
theorem inclusions_of_site :
    let files : FileTree := .directory [("secret", .file "s".toUTF8), ("site", .directory [("head", .file "h".toUTF8)])]
    let files' : FileTree := .directory [("site", .directory [("head", .file "h".toUTF8)])]
    (inclusionPath? "site" ".//head" = some "site/.//head" ∧
      ∃ further, Path.components "site/.//head" = Path.components "site" ++ further ∧ ¬ Path.Leaves further) ∧
    (files.at? "site" = files'.at? "site" ∧
      (inclusions files "site").load ".//head" = (inclusions files' "site").load ".//head") ∧
    Path.Leaves (Path.components "parts/../../secret") ∧
      (inclusions files "site").load "parts/../../secret" = .ok none := by
  intro files files'
  have found : inclusionPath? "site" ".//head" = some "site/.//head" := by decide
  have same : files.at? "site" = files'.at? "site" := rfl
  have leaves : Path.Leaves (Path.components "parts/../../secret") :=
    ⟨[.name "parts".toList, .parent, .parent], by decide, by decide⟩
  obtain ⟨⟨further, behind, -, stays, -⟩, -⟩ := (inclusions_confined "site" ".//head").1 _ found
  exact ⟨⟨found, further, behind, stays⟩, ⟨same, (inclusions_confined "site" ".//head").2.1 files files' same⟩, leaves,
    ((inclusions_confined "site" "parts/../../secret").2.2 (.inr leaves)).2.1 files⟩

end Loader

end Folio
