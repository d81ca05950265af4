import Folio.Sources
import Mathlib.Data.List.Infix

/-! The selection of sources by name. A request is read without a suffix `.md` in any letter case, but the stem of a
source is its name without a suffix in small letters. So a source is found under its own name unless that name has the
suffix with a capital letter. -/
namespace Folio.Sources

/-! ### Names without a suffix -/

/-- The suffix with a capital letter in it. -/
def capitalSuffixes : List String := [".mD", ".Md", ".MD"]

/-- The suffix in all its letter cases. -/
def suffixes : List String := ".md" :: capitalSuffixes

/-- The name without one suffix. -/
def IsBare (name bare : String) : Prop :=
  (∃ suffix ∈ suffixes, name = bare ++ suffix) ∨ name = bare ∧ ∀ suffix ∈ suffixes, ∀ front, name ≠ front ++ suffix

/-- The name has the suffix with a capital letter. -/
def IsCapital (name : String) : Prop :=
  ∃ suffix ∈ capitalSuffixes, ∃ front, name = front ++ suffix

variable {name bare suffix source other : String} {sources : List String}

/-- A small letter stands for itself and for its capital. -/
theorem eq_or_eq_of_toLower {c small capital : Char} (h : c.toLower = small)
    (size : capital.toNat + 32 = small.toNat) : c = small ∨ c = capital := by
  by_cases range : c.val ≥ 'A'.val ∧ c.val ≤ 'Z'.val
  · have shifted : (c.val + ('a'.val - 'A'.val)).toNat = small.toNat :=
      (congrArg Char.toNat (dif_pos range)).symm.trans (congrArg Char.toNat h)
    have upper : c.toNat ≤ 90 := range.2
    refine .inr (Char.toNat_inj.1 ?_)
    rw [UInt32.toNat_add] at shifted
    change (c.toNat + 32) % _ = _ at shifted
    omega
  · exact .inl ((dif_neg range).symm.trans h)

theorem mem_suffixes_iff : suffix ∈ suffixes ↔ ∃ m d, (m = 'm' ∨ m = 'M') ∧ (d = 'd' ∨ d = 'D') ∧
    suffix = String.ofList ['.', m, d] := by
  constructor
  · intro h
    simp only [suffixes, capitalSuffixes, List.mem_cons, List.not_mem_nil, or_false] at h
    rcases h with rfl | rfl | rfl | rfl
    · exact ⟨'m', 'd', .inl rfl, .inl rfl, rfl⟩
    · exact ⟨'m', 'D', .inl rfl, .inr rfl, rfl⟩
    · exact ⟨'M', 'd', .inr rfl, .inl rfl, rfl⟩
    · exact ⟨'M', 'D', .inr rfl, .inr rfl, rfl⟩
  · rintro ⟨m, d, rfl | rfl, rfl | rfl, rfl⟩ <;> decide

theorem normalizedName_append (h : suffix ∈ suffixes) (front : String) : normalizedName (front ++ suffix) = front := by
  obtain ⟨m, d, hm, hd, rfl⟩ := mem_suffixes_iff.1 h
  have letters : (m.toLower = 'm' && d.toLower = 'd') = true := by
    rcases hm with rfl | rfl <;> rcases hd with rfl | rfl <;> decide
  have back : (front ++ String.ofList ['.', m, d]).toList.reverse = d :: m :: '.' :: front.toList.reverse := by
    simp
  rw [normalizedName, back]
  simp only [letters, if_true, List.reverse_reverse, String.ofList_toList]

theorem normalizedName_of_plain (h : ∀ suffix ∈ suffixes, ∀ front, name ≠ front ++ suffix) :
    normalizedName name = name := by
  rw [normalizedName]
  split
  · rename_i d m front back
    split
    · rename_i letters
      rw [Bool.and_eq_true, decide_eq_true_eq, decide_eq_true_eq] at letters
      have hm : m = 'm' ∨ m = 'M' := eq_or_eq_of_toLower letters.1 (by decide)
      have hd : d = 'd' ∨ d = 'D' := eq_or_eq_of_toLower letters.2 (by decide)
      refine absurd ?_ (h _ (mem_suffixes_iff.2 ⟨m, d, hm, hd, rfl⟩) (String.ofList front.reverse))
      rw [← String.toList_inj, ← List.reverse_inj, back]
      simp
    · rfl
  · rfl

/-- A request is read as the bare name. -/
theorem isBare_iff : IsBare name bare ↔ normalizedName name = bare := by
  constructor
  · rintro (⟨suffix, h, rfl⟩ | ⟨rfl, h⟩)
    · exact normalizedName_append h bare
    · exact normalizedName_of_plain h
  · rintro rfl
    by_cases ends : ∃ suffix ∈ suffixes, ∃ front, name = front ++ suffix
    · obtain ⟨suffix, h, front, rfl⟩ := ends
      exact .inl ⟨suffix, h, by rw [normalizedName_append h]⟩
    · have plain : ∀ suffix ∈ suffixes, ∀ front, name ≠ front ++ suffix :=
        fun suffix h front same => ends ⟨suffix, h, front, same⟩
      exact .inr ⟨(normalizedName_of_plain plain).symm, plain⟩

/-! ### Stems -/

theorem stem_of_append (named : Path.fileName? source = some (bare ++ ".md")) : stem source = bare := by
  have cut : markdownSuffix.reverse.isPrefixOf? (bare ++ ".md").toList.reverse = some bare.toList.reverse := by
    rw [List.isPrefixOf?_eq_some_iff_append_eq, String.toList_append, List.reverse_append]
    rfl
  unfold stem
  rw [named]
  simp only [Option.getD_some, cut, List.reverse_reverse, String.ofList_toList]

theorem stem_of_plain (named : Path.fileName? source = some name) (h : ∀ front, name ≠ front ++ ".md") :
    stem source = name := by
  unfold stem
  rw [named]
  dsimp only [Option.getD_some]
  split
  · rename_i rest cut
    refine absurd ?_ (h (String.ofList rest.reverse))
    rw [← String.toList_inj, ← List.reverse_inj, ← List.isPrefixOf?_eq_some_iff_append_eq.1 cut]
    simp [markdownSuffix]
  · exact String.ofList_toList

theorem stem_of_nameless (nameless : Path.fileName? source = none) : stem source = "" := by
  unfold stem
  rw [nameless]
  decide

/-- No name has two suffixes. -/
theorem IsCapital.ne_append (h : IsCapital name) (front : String) : name ≠ front ++ ".md" := by
  obtain ⟨suffix, m, other, rfl⟩ := h
  intro same
  have last := congrArg (fun s : String => s.toList.reverse.take 3) same
  simp only [String.toList_append, List.reverse_append] at last
  simp only [capitalSuffixes, List.mem_cons, List.not_mem_nil, or_false] at m
  rcases m with rfl | rfl | rfl
  · exact absurd last (by simp)
  · exact absurd last (by simp)
  · exact absurd last (by simp)

/-- Without a capital letter in the suffix the stem is the bare name. -/
theorem stem_eq_normalizedName (named : Path.fileName? source = some name) (h : ¬ IsCapital name) :
    stem source = normalizedName name := by
  by_cases small : ∃ front, name = front ++ ".md"
  · obtain ⟨front, rfl⟩ := small
    rw [stem_of_append named, normalizedName_append List.mem_cons_self]
  · have plain : ∀ front, name ≠ front ++ ".md" := fun front same => small ⟨front, same⟩
    rw [stem_of_plain named plain, normalizedName_of_plain]
    intro suffix m front same
    rcases List.mem_cons.1 m with rfl | m
    · exact plain front same
    · exact h ⟨suffix, m, front, same⟩

theorem stem_of_isCapital (named : Path.fileName? source = some name) (h : IsCapital name) : stem source = name :=
  stem_of_plain named h.ne_append

theorem normalizedName_ne_of_isCapital (h : IsCapital name) : normalizedName name ≠ name := by
  obtain ⟨suffix, m, front, rfl⟩ := h
  rw [normalizedName_append (List.mem_cons_of_mem _ m)]
  intro same
  have size := congrArg (fun s : String => s.toList.length) same
  have long : 0 < suffix.toList.length := by
    simp only [capitalSuffixes, List.mem_cons, List.not_mem_nil, or_false] at m
    rcases m with rfl | rfl | rfl <;> decide
  simp only [String.toList_append, List.length_append] at size
  omega

/-! ### Selections -/

theorem mem_named_iff : other ∈ named sources name ↔ other ∈ sources ∧ stem other = normalizedName name := by
  rw [named, List.mem_filter, decide_eq_true_eq]

/-- The source has a name, and that is the same without one suffix. -/
def IsAlike (name other : String) : Prop :=
  ∃ own bare, Path.fileName? other = some own ∧ IsBare own bare ∧ IsBare name bare

/-- Whether the source is selected by the name is not decided by its bare name. -/
inductive Misjudged (name other : String) : Prop
  | passedOver {own bare : String} (named : Path.fileName? other = some own) (capital : IsCapital own)
      (here : IsBare own bare) (there : IsBare name bare)
  | takenIn {own : String} (named : Path.fileName? other = some own) (capital : IsCapital own)
      (here : IsBare name own)
  | nameless (nameless : Path.fileName? other = none) (empty : IsBare name "")

theorem isAlike_iff {own : String} (h : Path.fileName? other = some own) :
    IsAlike name other ↔ normalizedName own = normalizedName name := by
  simp only [IsAlike, h, isBare_iff, Option.some.injEq]
  constructor
  · rintro ⟨_, bare, rfl, here, there⟩
    exact here.trans there.symm
  · intro same
    exact ⟨own, _, rfl, same, rfl⟩

theorem misjudged_iff_of_isCapital {own : String} (h : Path.fileName? other = some own) (capital : IsCapital own) :
    Misjudged name other ↔ normalizedName own = normalizedName name ∨ own = normalizedName name := by
  constructor
  · rintro (⟨named, -, here, there⟩ | ⟨named, -, here⟩ | ⟨nameless, -⟩)
    · cases h.symm.trans named
      exact .inl ((isBare_iff.1 here).trans (isBare_iff.1 there).symm)
    · cases h.symm.trans named
      exact .inr (isBare_iff.1 here).symm
    · cases h.symm.trans nameless
  · rintro (same | same)
    · exact .passedOver h capital (isBare_iff.2 same) (isBare_iff.2 rfl)
    · exact .takenIn h capital (isBare_iff.2 same.symm)

/-- A source is selected by its bare name, apart from those that are misjudged. -/
theorem selects_iff_isAlike_iff (name other : String) :
    (stem other = normalizedName name ↔ IsAlike name other) ↔ ¬ Misjudged name other := by
  cases h : Path.fileName? other with
  | none =>
    have unlike : ¬ IsAlike name other := fun ⟨_, _, named, _⟩ => by cases h.symm.trans named
    have misjudged : Misjudged name other ↔ normalizedName name = "" := by
      rw [← isBare_iff]
      constructor
      · rintro (⟨named, -, -, -⟩ | ⟨named, -, -⟩ | ⟨-, empty⟩)
        · cases h.symm.trans named
        · cases h.symm.trans named
        · exact empty
      · exact .nameless h
    rw [stem_of_nameless h, misjudged, iff_false_right unlike, eq_comm]
  | some own =>
    by_cases capital : IsCapital own
    · -- The stem is the whole name, which is not the bare one.
      have apart := normalizedName_ne_of_isCapital capital
      rw [stem_of_isCapital h capital, isAlike_iff h, misjudged_iff_of_isCapital h capital]
      grind
    · have judged : ¬ Misjudged name other := by
        rintro (⟨named, capital', -, -⟩ | ⟨named, capital', -⟩ | ⟨nameless, -⟩)
        · cases h.symm.trans named
          exact capital capital'
        · cases h.symm.trans named
          exact capital capital'
        · cases h.symm.trans nameless
      rw [stem_eq_normalizedName h capital, isAlike_iff h]
      exact iff_of_true Iff.rfl judged

/-- A source is selected by its own name just if that name has no suffix with a capital letter. And the name selects
just the sources that have the same bare name, if none in the list has a suffix with a capital letter in front of which
that bare name stands, or is itself that bare name, and if none without a name meets a request that is nothing but a
suffix. -/
theorem selected_iff (m : source ∈ sources) (h : Path.fileName? source = some name) :
    (source ∈ named sources name ↔ ¬ IsCapital name) ∧
      ((∀ other ∈ sources, other ∈ named sources name ↔ IsAlike name other) ↔
        ∀ other ∈ sources, ¬ Misjudged name other) := by
  constructor
  · rw [mem_named_iff]
    by_cases capital : IsCapital name
    · rw [stem_of_isCapital h capital]
      simp [m, capital, (normalizedName_ne_of_isCapital capital).symm]
    · simp [m, capital, stem_eq_normalizedName h capital]
  · refine forall₂_congr fun other mo => ?_
    rw [mem_named_iff, and_iff_right mo]
    exact selects_iff_isAlike_iff name other

theorem selected_of_offer :
    let sources := ["docs/offer.md", "other/offer", "offer.md.md", "docs/Offer.MD", "offer-2.md"]
    "docs/offer.md" ∈ sources ∧ Path.fileName? "docs/offer.md" = some "offer.md" ∧
      "docs/offer.md" ∈ named sources "offer.md" ∧ named sources "offer.md" = ["docs/offer.md", "other/offer"] := by
  intro sources
  have m : "docs/offer.md" ∈ sources := List.mem_cons_self
  have h : Path.fileName? "docs/offer.md" = some "offer.md" := by decide
  have small : ¬ IsCapital "offer.md" := fun capital => capital.ne_append "offer" rfl
  exact ⟨m, h, (selected_iff m h).1.2 small, by decide⟩

/-- The suffix of the source is in capital letters. -/
theorem not_selected_of_capitals :
    let sources := ["docs/Offer.MD"]
    "docs/Offer.MD" ∈ sources ∧ Path.fileName? "docs/Offer.MD" = some "Offer.MD" ∧
      IsAlike "Offer.MD" "docs/Offer.MD" ∧ named sources "Offer.MD" = [] := by
  intro sources
  have h : Path.fileName? "docs/Offer.MD" = some "Offer.MD" := by decide
  exact ⟨List.mem_cons_self, h, (isAlike_iff h).2 rfl, by decide⟩

end Folio.Sources
