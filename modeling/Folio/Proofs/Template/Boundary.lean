import Folio.Proofs.Template.Progress
import Folio.Proofs.Template.Reading

/-! The end of what a tag holds. A text with a blank at its end shows a parser of words and tokens all that it needs to
see, so that the closing delimiter behind the blank makes no difference to it, be it one with a dash or without. -/
namespace Folio.Template

variable {text after other : List Char}

/-! ### Texts in front of a delimiter -/

/-- The text ends with a blank, unless it is empty. -/
def Spaced (text : List Char) : Prop :=
  ∀ c ∈ text.getLast?, Text.isBlank c = true

theorem Spaced.of_suffix (h : Spaced text) (s : after <:+ text) : Spaced after := by
  obtain ⟨read, rfl⟩ := s
  intro c m
  refine h c ?_
  rw [List.getLast?_append, Option.mem_def.1 m]
  rfl

theorem not_spaced_singleton {c : Char} (hc : Text.isBlank c = false) : ¬ Spaced [c] := by
  intro h
  rw [h c rfl] at hc
  cases hc

/-- The characters with which a closing delimiter starts, with a dash or without. None of them is a part of a word, a
number or a blank. -/
def edges : List Char :=
  ['-', '%', '}']

/-- The text starts like a closing delimiter. -/
inductive Shuts : List Char → Prop
  | intro {c : Char} {rest : List Char} : c ∈ edges → Shuts (c :: rest)

/-- A token without blanks that starts no closing delimiter. -/
structure IsInner (token : String) : Prop where
  solid : token.toList.any Text.isBlank = false
  head : token.toList.head?.any (· ∉ edges) = true

instance (token : String) : Decidable (IsInner token) :=
  decidable_of_iff (_ ∧ _) ⟨fun h => ⟨h.1, h.2⟩, fun h => ⟨h.solid, h.head⟩⟩

theorem IsInner.not_prefix {token : String} (ht : IsInner token) (h : Shuts other) : ¬ token.toList <+: other := by
  obtain ⟨m⟩ := h
  have head := ht.head
  cases e : token.toList with
  | nil =>
    rw [e] at head
    cases head
  | cons d letters =>
    rw [e] at head
    intro start
    obtain ⟨rfl, -⟩ := List.cons_prefix_cons.1 start
    exact of_decide_eq_true head m

/-- Whether a text with a blank behind it starts with a token does not depend on what stands behind the blank. -/
theorem Spaced.isPrefixOf?_append {token : List Char} (h : Spaced text) (solid : token.any Text.isBlank = false)
    (hn : text = [] → ¬ token <+: other) :
    token.isPrefixOf? (text ++ other) = (token.isPrefixOf? text).map (· ++ other) := by
  cases e : token.isPrefixOf? text with
  | some rest =>
    rw [Option.map_some, List.isPrefixOf?_eq_some_iff_append_eq, ← List.append_assoc,
      List.isPrefixOf?_eq_some_iff_append_eq.1 e]
  | none =>
    rw [Option.map_none, Option.eq_none_iff_forall_ne_some]
    intro rest found
    rcases List.append_eq_append_iff.1 (List.isPrefixOf?_eq_some_iff_append_eq.1 found) with
      ⟨behind, rfl, -⟩ | ⟨behind, rfl, rfl⟩
    · rw [List.isPrefixOf?_eq_some_iff_append_eq.2 rfl] at e
      cases e
    · by_cases ne : text = []
      · exact hn ne ⟨rest, by rw [ne, List.nil_append]⟩
      · have last := List.getLast_mem ne
        have blank := h _ (List.getLast?_eq_some_getLast ne)
        exact absurd blank (List.any_eq_false.1 solid _ (List.mem_append_left behind last))

theorem Spaced.startsWith_append {token : String} (h : Spaced text) (solid : token.toList.any Text.isBlank = false)
    (hn : text = [] → ¬ token.toList <+: other) : startsWith token (text ++ other) = startsWith token text := by
  rw [startsWith, startsWith, ← List.isSome_isPrefixOf?_eq_isPrefixOf, h.isPrefixOf?_append solid hn, Option.isSome_map,
    List.isSome_isPrefixOf?_eq_isPrefixOf]

/-- A word with a blank behind it ends in front of the blank. -/
theorem Spaced.startsWithWord_append {word : String} (h : Spaced text) (hw : IsInner word) (shuts : Shuts other) :
    startsWithWord word (text ++ other) = startsWithWord word text := by
  rw [startsWithWord, startsWithWord, h.isPrefixOf?_append hw.solid fun _ => hw.not_prefix shuts]
  cases e : word.toList.isPrefixOf? text with
  | none => rfl
  | some left =>
    cases left with
    | cons => rfl
    | nil =>
      obtain rfl : word.toList = text := by simpa using List.isPrefixOf?_eq_some_iff_append_eq.1 e
      have ne : word.toList ≠ [] := fun empty => by
        have head := hw.head
        rw [empty] at head
        cases head
      have blank := h _ (List.getLast?_eq_some_getLast ne)
      exact absurd blank (List.any_eq_false.1 hw.solid _ (List.getLast_mem ne))

section Shuts

variable (h : Shuts other)
include h

section While

variable {p : Char → Bool} (hp : edges.any p = false)
include hp

theorem Shuts.takeWhile_append : (text ++ other).takeWhile p = text.takeWhile p := by
  induction text with
  | nil =>
    obtain ⟨m⟩ := h
    simp [List.any_eq_false.1 hp _ m]
  | cons c text ih => cases hc : p c <;> simp [hc, ih]

theorem Shuts.dropWhile_append : (text ++ other).dropWhile p = text.dropWhile p ++ other := by
  refine (List.append_right_inj ((text ++ other).takeWhile p)).1 ?_
  rw [List.takeWhile_append_dropWhile, h.takeWhile_append hp, ← List.append_assoc, List.takeWhile_append_dropWhile]

end While

theorem Shuts.identifier?_append :
    identifier? (text ++ other) = (identifier? text).map fun (name, after) => (name, after ++ other) := by
  rw [identifier?, identifier?, h.dropWhile_append (by decide)]
  cases text.dropWhile Text.isBlank with
  | nil =>
    obtain ⟨m⟩ := h
    have start : edges.any isIdentStart = false := by decide
    simp [List.any_eq_false.1 start _ m]
  | cons c rest =>
    rw [List.cons_append]
    dsimp only
    rw [h.takeWhile_append (by decide), h.dropWhile_append (by decide)]
    split
    · rfl
    · rfl

end Shuts

/-! ### Parsers that stop before a delimiter -/

namespace Parser

variable {α β : Type}

/-- From the text the parser reads the same in front of every delimiter, and stops before that. -/
def StopsShortAt (text : List Char) (p : Parser α) : Prop :=
  ∃ value left, left <:+ text ∧ ∀ other, Shuts other → Takes p (text ++ other) value (left ++ other)

def StopsShort (p : Parser α) : Prop :=
  ∀ text, Spaced text → StopsShortAt text p

theorem StopsShort.bind {p : Parser β} {f : β → Parser α} (hp : StopsShort p) (hf : ∀ value, StopsShort (f value)) :
    StopsShort (p >>= f) := by
  intro text h
  obtain ⟨first, between, s, takes⟩ := hp text h
  obtain ⟨value, left, s', takes'⟩ := hf first between (h.of_suffix s)
  exact ⟨value, left, s'.trans s, fun other shuts => (takes other shuts).bind (takes' other shuts)⟩

theorem stopsShort_skipBlank : StopsShort skipBlank := by
  refine fun text _ => ⟨(), text.dropWhile Text.isBlank, List.dropWhile_suffix _, fun other shuts => .rest ?_⟩
  rw [shuts.dropWhile_append (by decide)]
  exact .goto .pure

theorem stopsShort_peek {token : String} (ht : IsInner token) : StopsShort (peek token) := by
  refine fun text h => ⟨startsWith token text, text, List.suffix_rfl, fun other shuts => .rest ?_⟩
  rw [h.startsWith_append ht.solid fun _ => ht.not_prefix shuts]
  exact .pure

theorem stopsShortAt_consume {token : String} (h : Spaced text) (solid : token.toList.any Text.isBlank = false)
    (hn : text = [] → ∀ other, Shuts other → ¬ token.toList <+: other) : StopsShortAt text (consume token) := by
  have same {other} (shuts : Shuts other) := h.isPrefixOf?_append solid (hn · other shuts)
  cases e : token.toList.isPrefixOf? text with
  | none =>
    refine ⟨false, text, List.suffix_rfl, fun other shuts => .rest ?_⟩
    rw [same shuts, e]
    exact .pure
  | some left =>
    refine ⟨true, left, suffix_of_isPrefixOf? e, fun other shuts => .rest ?_⟩
    rw [same shuts, e]
    exact .pass .pure

theorem stopsShort_consume {token : String} (ht : IsInner token) : StopsShort (consume token) :=
  fun _ h => stopsShortAt_consume h ht.solid fun _ _ shuts => ht.not_prefix shuts

theorem stopsShort_consumeWord {word : String} (hw : IsInner word) : StopsShort (consumeWord word) := by
  refine .bind stopsShort_skipBlank fun _ text h => ?_
  obtain ⟨found, left, s, takes⟩ := stopsShort_consume hw text h
  cases e : startsWithWord word text with
  | true =>
    refine ⟨found, left, s, fun other shuts => .rest ?_⟩
    rw [h.startsWithWord_append hw shuts, e]
    exact takes other shuts
  | false =>
    refine ⟨false, text, List.suffix_rfl, fun other shuts => .rest ?_⟩
    rw [h.startsWithWord_append hw shuts, e]
    exact .pure

/-- Two keywords that are not both there are given back. -/
theorem stopsShort_consumeWords {first second : String} (hf : IsInner first) (hs : IsInner second) :
    StopsShort (consumeWords first second) := by
  intro text h
  have unfolded (text : List Char) (position : Position) :
      consumeWords first second { rest := text, trimNext := false, position } = (do
        if ← consumeWord first then
          if ← consumeWord second then return true
          set ({ rest := text, trimNext := false, position } : Cursor)
          return false
        else return false : Parser Bool) { rest := text, trimNext := false, position } := rfl
  obtain ⟨found, between, s, takes⟩ := stopsShort_consumeWord hf text h
  obtain ⟨found', left, s', takes'⟩ := stopsShort_consumeWord hs between (h.of_suffix s)
  cases found with
  | false =>
    refine ⟨false, between, s, fun other shuts => ⟨fun position => ?_⟩⟩
    rw [unfolded]
    exact ((takes other shuts).no .pure).run position
  | true =>
    cases found' with
    | true =>
      refine ⟨true, left, s'.trans s, fun other shuts => ⟨fun position => ?_⟩⟩
      rw [unfolded]
      exact ((takes other shuts).yes ((takes' other shuts).yes .pure)).run position
    | false =>
      refine ⟨false, text, List.suffix_rfl, fun other shuts => ⟨fun position => ?_⟩⟩
      rw [unfolded]
      refine ((takes other shuts).run_bind _).trans ?_ position
      refine ((takes' other shuts).run_bind _).trans ?_
      exact fun _ => ⟨position, rfl⟩

end Parser

end Folio.Template
