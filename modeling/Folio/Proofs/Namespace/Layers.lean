import Folio.Presentation
import Folio.Proofs.Value.Dates

/-! Layers of variables. The last layer that has a variable decides what it is in the merged namespace. So layers may be
merged in groups, and groups in groups again: the dates that an inner merge has read are left alone by an outer one. -/
namespace Folio

namespace Namespace

variable {layers : List (Option Namespace)} {name : String}

theorem get?_merge (base upper : Namespace) (name : String) :
    (base.merge upper).get? name = (upper.get? name).or (base.get? name) :=
  Fields.find?_putAll upper.sorted ..

/-! ### The layer that counts -/

/-- The value of a variable in the last layer that has it. -/
def topmost? (layers : List (Option Namespace)) (name : String) : Option Value :=
  layers.reverse.findSome? (fun layer => layer.bind (·.get? name))

theorem topmost?_append (below above : List (Option Namespace)) (name : String) :
    topmost? (below ++ above) name = (topmost? above name).or (topmost? below name) := by
  rw [topmost?, List.reverse_append, List.findSome?_append]
  rfl

theorem topmost?_singleton (layer : Option Namespace) (name : String) :
    topmost? [layer] name = layer.bind (·.get? name) := by
  rw [topmost?, List.reverse_singleton, List.findSome?_singleton]

theorem topmost?_eq_some_iff {value : Value} :
    topmost? layers name = some value ↔ ∃ below ns above, layers = below ++ some ns :: above ∧
      ns.get? name = some value ∧ ∀ upper, some upper ∈ above → upper.get? name = none := by
  constructor
  · intro found
    obtain ⟨above, layer, below, split, has, hidden⟩ := List.findSome?_eq_some_iff.1 found
    obtain ⟨ns, rfl, has⟩ := Option.bind_eq_some_iff.1 has
    refine ⟨below.reverse, ns, above.reverse, ?_, has, fun upper m => hidden _ (List.mem_reverse.1 m)⟩
    rw [← List.reverse_reverse layers, split, List.reverse_append, List.reverse_cons, List.append_assoc]
    rfl
  · rintro ⟨below, ns, above, rfl, has, hidden⟩
    have free : topmost? above name = none := by
      refine List.findSome?_eq_none_iff.2 fun layer m => Option.bind_eq_none_iff.2 ?_
      rintro upper rfl
      exact hidden upper (List.mem_reverse.1 m)
    rw [← List.singleton_append, topmost?_append, topmost?_append, free, topmost?_singleton, Option.bind_some, has]
    rfl

theorem topmost?_eq_none_iff : topmost? layers name = none ↔ ∀ ns, some ns ∈ layers → ns.get? name = none := by
  rw [topmost?, List.findSome?_eq_none_iff]
  constructor
  · exact fun free ns m => free (some ns) (List.mem_reverse.2 m)
  · intro free layer m
    refine Option.bind_eq_none_iff.2 ?_
    rintro ns rfl
    exact free ns (List.mem_reverse.1 m)

/-! ### Merged layers -/

theorem mergeLayers_concat (layers : List (Option Namespace)) (layer : Option Namespace) :
    mergeLayers (layers ++ [layer]) =
      layer.elim (mergeLayers layers) (fun ns => (mergeLayers layers).merge ns.readDates) :=
  List.foldl_append

/-- Each variable has the value of the last layer that has it, with its dates read. -/
theorem get?_mergeLayers (layers : List (Option Namespace)) (name : String) :
    (mergeLayers layers).get? name = (topmost? layers name).map Value.readDates := by
  induction layers using List.reverseRecOn with
  | nil => rfl
  | append_singleton layers layer ih =>
    rw [mergeLayers_concat, topmost?_append, topmost?_singleton]
    cases layer with
    | none => exact ih
    | some ns =>
      rw [Option.elim_some, get?_merge, get?_readDates, ih, Option.bind_some, Option.map_or]

/-- Merged layers stand for themselves among other layers. -/
theorem mergeLayers_group (below group above : List (Option Namespace)) :
    mergeLayers (below ++ some (mergeLayers group) :: above) = mergeLayers (below ++ group ++ above) := by
  ext1 name
  have twice : (Value.readDates ∘ Value.readDates) = Value.readDates := funext Value.readDates_readDates
  rw [← List.singleton_append, ← List.append_assoc]
  simp only [get?_mergeLayers, topmost?_append, topmost?_singleton, Option.bind_some, Option.map_or, Option.map_map,
    twice]

end Namespace

/-! ### Layouts -/

/-- A layout shows the settings, the frontmatter of the configuration and that of the document in one merge. -/
theorem Presentation.layoutNamespace_build (config : Config) (frontmatter : Namespace) (content css : String) :
    (build config frontmatter).layoutNamespace content css =
      .mergeLayers [some ((build config .empty).settings content css), some config.frontmatter, some frontmatter] :=
  Namespace.mergeLayers_group [_] [some config.frontmatter, some frontmatter] []

namespace Namespace

/-- Layers that are merged in groups give what they give when merged at once: under every name the value of the last
layer that has it, and nothing where no layer does. The namespace of a layout is one such merge. -/
theorem mergeLayers_regroup :
    (∀ xs ys, mergeLayers (xs ++ ys) = mergeLayers (some (mergeLayers xs) :: ys) ∧
      mergeLayers (xs ++ ys) = mergeLayers [some (mergeLayers xs), some (mergeLayers ys)]) ∧
    (∀ below group above,
      mergeLayers (below ++ group ++ above) = mergeLayers (below ++ some (mergeLayers group) :: above)) ∧
    (∀ layers name value, (mergeLayers layers).get? name = some value ↔ ∃ below ns above found,
      layers = below ++ some ns :: above ∧ ns.get? name = some found ∧
        (∀ upper, some upper ∈ above → upper.get? name = none) ∧ value = found.readDates) ∧
    (∀ layers name, (mergeLayers layers).get? name = none ↔ ∀ ns, some ns ∈ layers → ns.get? name = none) ∧
    ∀ config frontmatter content css, (Presentation.build config frontmatter).layoutNamespace content css =
      mergeLayers [some ((Presentation.build config .empty).settings content css), some config.frontmatter,
        some frontmatter] := by
  refine ⟨fun xs ys => ?_, fun below group above => (mergeLayers_group below group above).symm,
    fun layers name value => ?_, fun layers name => ?_, Presentation.layoutNamespace_build⟩
  · have first : mergeLayers (xs ++ ys) = mergeLayers (some (mergeLayers xs) :: ys) := (mergeLayers_group [] xs ys).symm
    have second := mergeLayers_group [some (mergeLayers xs)] ys []
    rw [List.append_nil] at second
    exact ⟨first, first.trans second.symm⟩
  · rw [get?_mergeLayers, Option.map_eq_some_iff]
    constructor
    · rintro ⟨found, counts, rfl⟩
      obtain ⟨below, ns, above, split, has, hidden⟩ := topmost?_eq_some_iff.1 counts
      exact ⟨below, ns, above, found, split, has, hidden, rfl⟩
    · rintro ⟨below, ns, above, found, split, has, hidden, rfl⟩
      exact ⟨found, topmost?_eq_some_iff.2 ⟨below, ns, above, split, has, hidden⟩, rfl⟩
  · rw [get?_mergeLayers, Option.map_eq_none_iff, topmost?_eq_none_iff]

end Namespace

end Folio
