import Folio.Proofs.Template.Progress
import Folio.Proofs.Template.Reading
import Mathlib.Data.List.TakeWhile

/-! What a text shows ahead. Words, tokens and tags at its start are the same with more text behind, as long as it has a
closing delimiter, which none of them goes beyond. -/
namespace Folio.Template

variable {text after more : List Char}

/-! ### Closing delimiters ahead -/

/-- What closes an output, a tag or a comment. -/
def closings : List (List Char) :=
  [['}', '}'], ['%', '}'], ['#', '}']]

theorem length_of_mem_closings {close : List Char} (m : close ∈ closings) : close.length = 2 := by
  simp only [closings, List.mem_cons, List.not_mem_nil, or_false] at m
  rcases m with rfl | rfl | rfl <;> rfl

/-- Nothing more follows the text, or it has a closing delimiter. -/
def Covers (more text : List Char) : Prop :=
  more = [] ∨ ∃ close ∈ closings, close <:+: text

theorem Covers.of_suffix (h : Covers more after) (s : after <:+ text) : Covers more text :=
  h.imp_right fun ⟨close, m, i⟩ => ⟨close, m, i.trans s.isInfix⟩

theorem Covers.eq_nil (h : Covers more []) : more = [] :=
  h.resolve_right fun ⟨_, m, i⟩ => absurd i.length_le (by rw [length_of_mem_closings m]; decide)

/-- A text without any character of a closing delimiter. -/
def Closeless (text : List Char) : Prop :=
  ∀ close ∈ closings, ∀ c ∈ close, c ∉ text

-- Both quantifiers are over lists, the inner one not over all characters.
instance (text : List Char) : Decidable (Closeless text) :=
  @List.decidableBAll _ _ (fun close => List.decidableBAll (fun c => c ∉ text) close) closings

theorem Closeless.not_infix (h : Closeless text) {close : List Char} (m : close ∈ closings) : ¬ close <:+: text := by
  intro i
  obtain ⟨c, rest, rfl⟩ := List.exists_cons_of_length_pos (by rw [length_of_mem_closings m]; decide)
  exact h _ m c List.mem_cons_self (i.subset List.mem_cons_self)

theorem closeless_of_isBlank (h : IsBlank text) : Closeless text := by
  intro close m c hc ht
  have solid : ∀ close ∈ closings, close.all (fun c => !Text.isBlank c) = true := by decide
  have := List.all_eq_true.1 (solid close m) c hc
  rw [h c ht] at this
  cases this

/-- A closing delimiter does not start in a text that has none of its characters. -/
theorem Covers.behind {start : List Char} (h : Covers more (start ++ text)) (hs : Closeless start) :
    Covers more text := by
  obtain rfl | ⟨close, m, i⟩ := h
  · exact .inl rfl
  refine .inr ⟨close, m, ?_⟩
  induction start with
  | nil => exact i
  | cons c start ih =>
    refine ih (fun close m d hd hs' => hs close m d hd (List.mem_cons_of_mem c hs')) ?_
    refine (List.infix_cons_iff.1 i).resolve_left fun p => ?_
    obtain ⟨d, rest, rfl⟩ := List.exists_cons_of_length_pos (by rw [length_of_mem_closings m]; decide)
    obtain ⟨rfl, -⟩ := List.cons_prefix_cons.1 p
    exact hs _ m d List.mem_cons_self List.mem_cons_self

theorem Covers.dropWhile (h : Covers more text) : Covers more (text.dropWhile Text.isBlank) := by
  rw [← List.takeWhile_append_dropWhile (p := Text.isBlank) (l := text)] at h
  exact h.behind (closeless_of_isBlank fun c => List.mem_takeWhile_imp)

/-- Nothing more follows the text, or it has a closing brace, which belongs to no blank, digit, letter or dash. -/
def Braced (more text : List Char) : Prop :=
  more = [] ∨ '}' ∈ text

theorem Covers.braced (h : Covers more text) : Braced more text := by
  refine h.imp_right fun ⟨close, m, i⟩ => i.subset ?_
  simp only [closings, List.mem_cons, List.not_mem_nil, or_false] at m
  rcases m with rfl | rfl | rfl <;> decide

namespace Braced

theorem of_cons {c : Char} (h : Braced more (c :: text)) (hc : c ≠ '}') : Braced more text :=
  h.imp_right fun m => (List.mem_cons.1 m).resolve_left hc.symm

theorem of_append {start : List Char} (h : Braced more (start ++ text)) (hs : '}' ∉ start) : Braced more text :=
  h.imp_right fun m => (List.mem_append.1 m).resolve_left hs

variable (h : Braced more text)
include h

theorem exists_cons : more = [] ∨ ∃ c rest, text = c :: rest :=
  h.imp_right fun m => List.exists_cons_of_ne_nil (List.ne_nil_of_mem m)

/-- The first two characters are those of the text itself. -/
theorem exists_of_append_eq {c d : Char} (hc : c ≠ '}') (e : text ++ more = c :: d :: after) :
    ∃ behind, text = c :: d :: behind ∧ after = behind ++ more := by
  obtain rfl | m := h
  · exact ⟨after, by simpa using e, (List.append_nil after).symm⟩
  match text with
  | x :: y :: behind =>
    cases e
    exact ⟨behind, rfl, rfl⟩
  | [x] =>
    obtain rfl := List.mem_singleton.1 m
    exact absurd (List.cons.inj e).1.symm hc

section While

variable {p : Char → Bool} (hp : p '}' = false)
include hp

theorem dropWhile : Braced more (text.dropWhile p) := by
  rw [← List.takeWhile_append_dropWhile (p := p) (l := text)] at h
  refine of_append h fun taken => ?_
  rw [List.mem_takeWhile_imp taken] at hp
  cases hp

theorem takeWhile_append : (text ++ more).takeWhile p = text.takeWhile p := by
  obtain rfl | m := h
  · rw [List.append_nil]
  induction text with
  | nil => cases m
  | cons c text ih =>
    cases hc : p c with
    | false => simp [hc]
    | true =>
      have ne : '}' ≠ c := by
        rintro rfl
        rw [hp] at hc
        cases hc
      simp [hc, ih ((List.mem_cons.1 m).resolve_left ne)]

theorem dropWhile_append : (text ++ more).dropWhile p = text.dropWhile p ++ more := by
  refine (List.append_right_inj ((text ++ more).takeWhile p)).1 ?_
  rw [List.takeWhile_append_dropWhile, takeWhile_append h hp, ← List.append_assoc, List.takeWhile_append_dropWhile]

end While

theorem identifier?_more :
    identifier? (text ++ more) = (identifier? text).map fun (name, after) => (name, after ++ more) := by
  have solid := h.dropWhile (p := Text.isBlank) (by decide)
  rw [identifier?, identifier?, h.dropWhile_append (by decide)]
  cases e : text.dropWhile Text.isBlank with
  | nil =>
    obtain rfl | m := e ▸ solid
    · rfl
    · cases m
  | cons c rest =>
    rw [List.cons_append]
    dsimp only
    cases hc : isIdentStart c with
    | false => rfl
    | true =>
      have ne : c ≠ '}' := by
        rintro rfl
        cases hc
      have inside := of_cons (e ▸ solid) ne
      rw [if_pos rfl, if_pos rfl, inside.takeWhile_append (by decide), inside.dropWhile_append (by decide)]
      rfl

theorem of_identifier? {name : String} (e : identifier? text = some (name, after)) : Braced more after := by
  obtain ⟨c, letters, en, hc, hl⟩ := isIdentStart_of_isIdentifier (isIdentifier_of_identifier? e)
  rw [← identifier?_append e] at h
  refine of_append h fun m => ?_
  rcases List.mem_append.1 m with m | m
  · exact absurd (List.mem_takeWhile_imp m) (by decide)
  · rw [en] at m
    have : isIdentRest '}' = true := by
      rcases List.mem_cons.1 m with rfl | m
      · exact isIdentRest_of_isIdentStart hc
      · exact hl _ m
    exact absurd this (by decide)

theorem dropToken_dash : dropToken "-" (text ++ more) = dropToken "-" text ++ more ∧
    Braced more (dropToken "-" text) := by
  rcases h.exists_cons with rfl | ⟨c, rest, rfl⟩
  · exact ⟨by rw [List.append_nil, List.append_nil], .inl rfl⟩
  by_cases hc : '-' = c
  · subst hc
    exact ⟨rfl, h.of_cons (by decide)⟩
  · have kept (rest : List Char) : dropToken "-" (c :: rest) = c :: rest := by
      have : "-".toList.isPrefixOf? (c :: rest) = none := by
        change (if '-' == c then _ else none) = none
        rw [if_neg (by simpa using hc)]
      rw [dropToken, this, Option.getD_none]
    rw [List.cons_append, kept, kept]
    exact ⟨rfl, h⟩

theorem tagKeyword?_append : tagKeyword? (text ++ more) = tagKeyword? text := by
  by_cases opens : ∃ rest, text = '{' :: '%' :: rest
  · obtain ⟨rest, rfl⟩ := opens
    obtain ⟨dash, behind⟩ := ((h.of_cons (by decide)).of_cons (by decide)).dropToken_dash
    change (identifier? (dropToken "-" (rest ++ more))).map (·.1) = (identifier? (dropToken "-" rest)).map (·.1)
    rw [dash, behind.identifier?_more, Option.map_map]
    rfl
  · have none {text : List Char} (ne : ¬ ∃ rest, text = '{' :: '%' :: rest) : tagKeyword? text = none := by
      unfold tagKeyword?
      split
      · exact absurd ⟨_, rfl⟩ ne
      · rfl
    rw [none opens, none]
    rintro ⟨rest, e⟩
    obtain ⟨behind, e, -⟩ := h.exists_of_append_eq (by decide) e
    exact opens ⟨behind, e⟩

end Braced

/-- No closing delimiter ends before the token does. -/
def IsAtomic (token : String) : Prop :=
  ∀ start ∈ token.toList.inits, start = token.toList ∨ ∀ close ∈ closings, ¬ close <:+: start

instance (token : String) : Decidable (IsAtomic token) :=
  inferInstanceAs (Decidable (∀ start ∈ _, _))

theorem Closeless.isAtomic {token : String} (h : Closeless token.toList) : IsAtomic token :=
  fun _ m => .inr fun _ hc i => h.not_infix hc (i.trans ((List.mem_inits _ _).1 m).isInfix)

namespace Covers

variable (h : Covers more text)
include h

theorem isPrefixOf?_append {token : String} (ht : IsAtomic token) :
    token.toList.isPrefixOf? (text ++ more) = (token.toList.isPrefixOf? text).map (· ++ more) := by
  obtain rfl | ⟨close, m, i⟩ := h
  · simp
  cases e : token.toList.isPrefixOf? text with
  | some rest =>
    rw [Option.map_some, List.isPrefixOf?_eq_some_iff_append_eq, ← List.append_assoc,
      List.isPrefixOf?_eq_some_iff_append_eq.1 e]
  | none =>
    have none (rest : List Char) : token.toList ++ rest ≠ text := fun cut => by
      rw [List.isPrefixOf?_eq_some_iff_append_eq.2 cut] at e
      cases e
    rw [Option.map_none, Option.eq_none_iff_forall_ne_some]
    intro rest found
    have cut := List.isPrefixOf?_eq_some_iff_append_eq.1 found
    rcases List.append_eq_append_iff.1 cut with ⟨rest, cut, -⟩ | ⟨rest, cut, -⟩
    · exact none rest cut.symm
    · rcases ht text ((List.mem_inits _ _).2 ⟨rest, cut.symm⟩) with whole | unclosed
      · exact none [] (by rw [List.append_nil, whole])
      · exact unclosed close m i

theorem startsWith_append {token : String} (ht : IsAtomic token) :
    startsWith token (text ++ more) = startsWith token text := by
  rw [startsWith, startsWith, ← List.isSome_isPrefixOf?_eq_isPrefixOf, h.isPrefixOf?_append ht,
    Option.isSome_map, List.isSome_isPrefixOf?_eq_isPrefixOf]

/-- Behind a word without a brace there is a character that tells whether the word goes on. -/
theorem startsWithWord_append {word : String} (hw : Closeless word.toList) :
    startsWithWord word (text ++ more) = startsWithWord word text := by
  rw [startsWithWord, startsWithWord, h.isPrefixOf?_append hw.isAtomic]
  cases e : word.toList.isPrefixOf? text with
  | none => rfl
  | some rest =>
    have braced := h.braced
    rw [← List.isPrefixOf?_eq_some_iff_append_eq.1 e] at braced
    rcases (braced.of_append (hw ['}', '}'] (by decide) '}' (by decide))).exists_cons with rfl | ⟨c, rest, rfl⟩
    · rw [Option.map_some, List.append_nil]
    · rfl

/-- Behind a brace there is more than one character up to the end of a closing delimiter. -/
theorem atTrimmedOpening_append : atTrimmedOpening (text ++ more) = atTrimmedOpening text := by
  obtain rfl | ⟨close, m, i⟩ := h
  · rw [List.append_nil]
  have plain (c d e : Char) (rest : List Char) (ne : ¬ (c = '{' ∧ e = '-')) :
      atTrimmedOpening (c :: d :: e :: rest) = false := by
    unfold atTrimmedOpening
    split
    · rename_i eq
      cases eq
      exact absurd ⟨rfl, rfl⟩ ne
    · rfl
  match text with
  | c :: d :: e :: rest =>
    by_cases dash : c = '{' ∧ e = '-'
    · obtain ⟨rfl, rfl⟩ := dash
      rfl
    · exact (plain c d e (rest ++ more) dash).trans (plain c d e rest dash).symm
  | [c, d] =>
    have ne : c ≠ '{' := by
      rintro rfl
      have := i.eq_of_length (length_of_mem_closings m)
      subst this
      simp [closings] at m
    cases more with
    | nil => rfl
    | cons e more => exact (plain c d e more fun h => ne h.1).trans (by simp [atTrimmedOpening])
  | [_] => exact absurd i.length_le (by rw [length_of_mem_closings m]; exact nofun)
  | [] => exact absurd i.length_le (by rw [length_of_mem_closings m]; decide)

end Covers

end Folio.Template
