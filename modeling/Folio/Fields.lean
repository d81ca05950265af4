/-! Mappings as lists of fields in ascending order of their keys, compared by code point. `put` keeps
the order, `find?` after `put` sees the new field and all others, and two ordered lists that answer
alike under every key are equal. -/
namespace Folio.Fields

variable {α β : Type}

/-- The keys of the fields ascend strictly, so no key stands twice. -/
def Sorted (fields : List (String × α)) : Prop :=
  fields.Pairwise (fun a b => a.1 < b.1)

/-- The value stored under a key. -/
def find? (key : String) : List (String × α) → Option α
  | [] => none
  | (k, v) :: rest => if k = key then some v else find? key rest

/-- Stores a value under a key, in place of the one that was there. -/
def put (key : String) (value : α) : List (String × α) → List (String × α)
  | [] => [(key, value)]
  | (k, v) :: rest =>
    if key < k then (key, value) :: (k, v) :: rest
    else if k = key then (key, value) :: rest
    else (k, v) :: put key value rest

/-- Removes a key. -/
def erase (key : String) (fields : List (String × α)) : List (String × α) :=
  fields.filter (fun field => field.1 ≠ key)

/-- Lays fields over others: a later field replaces an earlier one of its key. -/
def putAll (base upper : List (String × α)) : List (String × α) :=
  upper.foldl (fun fields field => put field.1 field.2 fields) base

/-- The mapping that a list of fields in any order stands for; the last field of a key counts. -/
def ofList (entries : List (String × α)) : List (String × α) :=
  putAll [] entries

/-- Applies a function to every value and keeps the keys. -/
def mapValues (f : α → β) (fields : List (String × α)) : List (String × β) :=
  fields.map (fun field => (field.1, f field.2))

def keys (fields : List (String × α)) : List String :=
  fields.map (·.1)

@[simp] theorem find?_nil (key : String) : find? key ([] : List (String × α)) = none := rfl

theorem find?_cons (key k : String) (v : α) (rest : List (String × α)) :
    find? key ((k, v) :: rest) = if k = key then some v else find? key rest := rfl

theorem put_nil (key : String) (value : α) : put key value [] = [(key, value)] := rfl

theorem put_cons (key k : String) (value v : α) (rest : List (String × α)) :
    put key value ((k, v) :: rest) =
      if key < k then (key, value) :: (k, v) :: rest
      else if k = key then (key, value) :: rest
      else (k, v) :: put key value rest := rfl

theorem find?_put_self (key : String) (value : α) (fields : List (String × α)) :
    find? key (put key value fields) = some value := by
  induction fields with
  | nil => simp [put_nil, find?_cons]
  | cons field rest ih =>
    obtain ⟨k, v⟩ := field
    rw [put_cons]
    split
    · simp [find?_cons]
    · split
      · simp [find?_cons]
      · rename_i h; simp [find?_cons, h, ih]

theorem find?_put_ne {key other : String} (h : other ≠ key) (value : α)
    (fields : List (String × α)) :
    find? other (put key value fields) = find? other fields := by
  induction fields with
  | nil => simp [put_nil, find?_cons, Ne.symm h]
  | cons field rest ih =>
    obtain ⟨k, v⟩ := field
    rw [put_cons]
    split
    · simp [find?_cons, Ne.symm h]
    · split
      · rename_i hk; subst hk; simp [find?_cons, Ne.symm h]
      · simp [find?_cons, ih]

theorem find?_put (key other : String) (value : α) (fields : List (String × α)) :
    find? other (put key value fields) = if other = key then some value else find? other fields := by
  split
  · rename_i same
    rw [same, find?_put_self]
  · rename_i ne
    exact find?_put_ne ne value fields

theorem find?_erase (key other : String) (fields : List (String × α)) :
    find? other (erase key fields) = if other = key then none else find? other fields := by
  induction fields with
  | nil => simp [erase]
  | cons field rest ih =>
    obtain ⟨k, v⟩ := field
    have step : erase key ((k, v) :: rest) = if k = key then erase key rest else (k, v) :: erase key rest := by
      simp [erase, List.filter_cons]
    rw [step]
    by_cases same : k = key
    · rw [if_pos same, ih, find?_cons]
      by_cases named : other = key
      · simp [named]
      · simp [named, same, Ne.symm named]
    · rw [if_neg same, find?_cons, find?_cons, ih]
      by_cases named : other = key
      · simp [named, same]
      · simp [named]

theorem erase_put (key : String) (value : α) (fields : List (String × α)) :
    erase key (put key value fields) = erase key fields := by
  induction fields with
  | nil => simp [put_nil, erase]
  | cons field rest ih =>
    obtain ⟨k, v⟩ := field
    rw [erase, erase] at ih
    rw [put_cons, erase, erase]
    split
    · simp
    · split
      · rename_i same
        simp [same]
      · rw [List.filter_cons, List.filter_cons, ih]

theorem mem_put {key : String} {value : α} {field : String × α} {fields : List (String × α)}
    (h : field ∈ put key value fields) : field = (key, value) ∨ field ∈ fields := by
  induction fields with
  | nil => simpa [put_nil] using h
  | cons head rest ih =>
    obtain ⟨k, v⟩ := head
    rw [put_cons] at h
    split at h
    · simpa using h
    · split at h
      · simp only [List.mem_cons] at h ⊢
        exact h.elim Or.inl (fun m => Or.inr (Or.inr m))
      · simp only [List.mem_cons] at h ⊢
        rcases h with h | h
        · exact Or.inr (Or.inl h)
        · exact (ih h).elim Or.inl (fun m => Or.inr (Or.inr m))

theorem mem_of_find? {key : String} {value : α} {fields : List (String × α)}
    (h : find? key fields = some value) : (key, value) ∈ fields := by
  induction fields with
  | nil => cases h
  | cons field rest ih =>
    rw [find?_cons] at h
    split at h
    · rename_i e
      cases h
      exact e ▸ List.mem_cons_self
    · exact List.mem_cons_of_mem _ (ih h)

theorem isSome_find?_iff {key : String} {fields : List (String × α)} :
    (find? key fields).isSome ↔ key ∈ keys fields := by
  induction fields with
  | nil => simp [keys]
  | cons field rest ih =>
    obtain ⟨k, v⟩ := field
    rw [find?_cons]
    split
    · rename_i e
      simp [keys, e]
    · rename_i ne
      rw [ih]
      simp [keys, Ne.symm ne]

theorem mem_keys_put {key name : String} {value : α} {fields : List (String × α)} :
    name ∈ keys (put key value fields) ↔ name = key ∨ name ∈ keys fields := by
  rw [← isSome_find?_iff, ← isSome_find?_iff, find?_put]
  split <;> simp [*]

theorem mem_keys_putAll {name : String} {base upper : List (String × α)} :
    name ∈ keys (putAll base upper) ↔ name ∈ keys base ∨ name ∈ keys upper := by
  induction upper generalizing base with
  | nil => simp [putAll, keys]
  | cons field rest ih =>
    have step : putAll base (field :: rest) = putAll (put field.1 field.2 base) rest := rfl
    rw [step, ih, mem_keys_put]
    simp only [keys, List.map_cons, List.mem_cons]
    exact ⟨fun h => by rcases h with (h | h) | h <;> simp [h], fun h => by rcases h with h | h | h <;> simp [h]⟩

theorem sorted_put {fields : List (String × α)} (h : Sorted fields) (key : String) (value : α) :
    Sorted (put key value fields) := by
  induction fields with
  | nil => exact List.pairwise_singleton ..
  | cons field rest ih =>
    obtain ⟨k, v⟩ := field
    obtain ⟨hk, hr⟩ := List.pairwise_cons.1 h
    rw [put_cons]
    split
    · rename_i lt
      refine List.pairwise_cons.2 ⟨fun b hb => ?_, h⟩
      rcases List.mem_cons.1 hb with rfl | hb
      · exact lt
      · exact String.lt_trans lt (hk b hb)
    · split
      · rename_i e; subst e; exact List.pairwise_cons.2 ⟨hk, hr⟩
      · rename_i le ne
        refine List.pairwise_cons.2 ⟨fun b hb => ?_, ih hr⟩
        rcases mem_put hb with rfl | hb
        · rcases String.le_total k key with l | l
          · exact Decidable.byContradiction fun n =>
              ne (String.le_antisymm l (String.not_lt.1 n))
          · exact absurd (String.le_antisymm l (String.not_lt.1 le)) (Ne.symm ne)
        · exact hk b hb

theorem sorted_putAll {base : List (String × α)} (h : Sorted base) (upper : List (String × α)) :
    Sorted (putAll base upper) := by
  induction upper generalizing base with
  | nil => exact h
  | cons field rest ih => exact ih (sorted_put h field.1 field.2)

theorem sorted_ofList (entries : List (String × α)) : Sorted (ofList entries) :=
  sorted_putAll List.Pairwise.nil entries

theorem sorted_mapValues {fields : List (String × α)} (h : Sorted fields) (f : α → β) :
    Sorted (mapValues f fields) := by
  induction fields with
  | nil => exact List.Pairwise.nil
  | cons field rest ih =>
    obtain ⟨hk, hr⟩ := List.pairwise_cons.1 h
    refine List.pairwise_cons.2 ⟨fun b hb => ?_, ih hr⟩
    obtain ⟨a, ha, rfl⟩ := List.mem_map.1 hb
    exact hk a ha

theorem find?_mapValues (f : α → β) (key : String) (fields : List (String × α)) :
    find? key (mapValues f fields) = (find? key fields).map f := by
  induction fields with
  | nil => rfl
  | cons field rest ih =>
    show (if field.1 = key then some (f field.2) else find? key (mapValues f rest)) =
      (if field.1 = key then some field.2 else find? key rest).map f
    split
    · rfl
    · exact ih

/-- Upper fields hide those of the same keys below them. -/
theorem find?_putAll {upper : List (String × α)} (sorted : Sorted upper) (base : List (String × α)) (key : String) :
    find? key (putAll base upper) = (find? key upper).or (find? key base) := by
  induction upper generalizing base with
  | nil => rfl
  | cons field rest ih =>
    obtain ⟨k, v⟩ := field
    obtain ⟨first, sorted⟩ := List.pairwise_cons.1 sorted
    have step : putAll base ((k, v) :: rest) = putAll (put k v base) rest := rfl
    rw [step, ih sorted, find?_put, find?_cons]
    by_cases same : k = key
    · subst same
      -- No later field has this key, since the keys ascend.
      have last : find? k rest = none := by
        refine Option.eq_none_iff_forall_ne_some.2 fun value found => ?_
        exact String.lt_irrefl k (first _ (mem_of_find? found))
      rw [last, if_pos rfl, if_pos rfl]
      rfl
    · rw [if_neg (Ne.symm same), if_neg same]

/-- A field is found under its own key, and nothing else is. -/
theorem find?_eq_some_iff {fields : List (String × α)} (h : Sorted fields) {key : String}
    {value : α} : find? key fields = some value ↔ (key, value) ∈ fields := by
  induction fields with
  | nil => simp
  | cons field rest ih =>
    obtain ⟨k, v⟩ := field
    obtain ⟨hk, hr⟩ := List.pairwise_cons.1 h
    rw [find?_cons]
    split
    · rename_i e
      subst e
      constructor
      · rintro ⟨rfl⟩; exact List.mem_cons_self
      · intro m
        rcases List.mem_cons.1 m with e | m
        · rw [(Prod.mk.inj e).2]
        · exact absurd (hk _ m) (String.lt_irrefl _)
    · rename_i ne
      rw [ih hr, List.mem_cons]
      exact ⟨Or.inr, fun m => m.elim (fun e => absurd (Prod.mk.inj e).1.symm ne) id⟩

/-- Ordered fields are determined by what is found under each key. -/
theorem eq_of_find? {a b : List (String × α)} (ha : Sorted a) (hb : Sorted b)
    (h : ∀ key, find? key a = find? key b) : a = b := by
  have mem : ∀ field, field ∈ a ↔ field ∈ b := fun ⟨k, v⟩ => by
    rw [← find?_eq_some_iff ha, ← find?_eq_some_iff hb, h]
  induction a generalizing b with
  | nil =>
    cases b with
    | nil => rfl
    | cons x _ => exact absurd ((mem x).2 List.mem_cons_self) (by simp)
  | cons x a ih =>
    cases b with
    | nil => exact absurd ((mem x).1 List.mem_cons_self) (by simp)
    | cons y b =>
      obtain ⟨hx, tailA⟩ := List.pairwise_cons.1 ha
      obtain ⟨hy, tailB⟩ := List.pairwise_cons.1 hb
      have xy : x = y := by
        rcases List.mem_cons.1 ((mem x).1 List.mem_cons_self) with e | m
        · exact e
        · rcases List.mem_cons.1 ((mem y).2 List.mem_cons_self) with e | n
          · exact e.symm
          · exact absurd (hx y n) (String.lt_asymm (hy x m))
      subst xy
      have rest : ∀ field, field ∈ a ↔ field ∈ b := fun field => by
        constructor
        · intro m
          rcases List.mem_cons.1 ((mem field).1 (List.mem_cons_of_mem _ m)) with e | n
          · subst e; exact absurd (hx _ m) (String.lt_irrefl _)
          · exact n
        · intro m
          rcases List.mem_cons.1 ((mem field).2 (List.mem_cons_of_mem _ m)) with e | n
          · subst e; exact absurd (hy _ m) (String.lt_irrefl _)
          · exact n
      have found : ∀ key, find? key a = find? key b := fun key => Option.ext fun v => by
        rw [find?_eq_some_iff tailA, find?_eq_some_iff tailB, rest]
      rw [ih tailA tailB found rest]

end Folio.Fields
