import Folio.Proofs.Decimal.Digits
import Folio.Proofs.Template.Identifier
import Mathlib.Data.List.Infix

/-! What the parser reads from a text that is known: blanks, tokens, keywords and identifiers with a blank behind them.
A run on such a text is put together from the runs of its parts. -/
namespace Folio.Template

variable {α β : Type} {text more after gap : List Char}

/-! ### Blanks and words -/

/-- A text of blanks only. -/
def IsBlank (gap : List Char) : Prop :=
  ∀ c ∈ gap, Text.isBlank c = true

/-- The text does not start with a blank. -/
def IsSolid (text : List Char) : Prop :=
  ∀ c ∈ text.head?, Text.isBlank c = false

/-- An identifier in front of the text ends there. -/
def EndsWord (text : List Char) : Prop :=
  ∀ c ∈ text.head?, isIdentRest c = false

theorem isBlank_nil : IsBlank [] :=
  nofun

theorem isSolid_cons {c : Char} (h : Text.isBlank c = false) : IsSolid (c :: text) := by
  rintro d ⟨⟩
  exact h

theorem dropWhile_isBlank (hg : IsBlank gap) (ht : IsSolid text) : (gap ++ text).dropWhile Text.isBlank = text := by
  rw [List.dropWhile_append_of_pos hg]
  cases text with
  | nil => rfl
  | cons c text => exact List.dropWhile_cons_of_neg (by simp [ht c rfl])

theorem ne_of_isBlank {c d : Char} (hc : Text.isBlank c = true) (hd : Text.isBlank d = false) : c ≠ d := by
  rintro rfl
  rw [hc] at hd
  cases hd

theorem isAlpha_iff {c : Char} : c.isAlpha = true ↔
    (65 ≤ c.toNat ∧ c.toNat ≤ 90) ∨ (97 ≤ c.toNat ∧ c.toNat ≤ 122) := by
  change (decide (65 ≤ c.val ∧ c.val ≤ 90) || (decide (97 ≤ c.val) && decide (c.val ≤ 122))) = true ↔ _
  simp only [Bool.or_eq_true, Bool.and_eq_true, decide_eq_true_eq, UInt32.le_iff_toNat_le]
  rfl

theorem isBlank_of_isIdentRest {c : Char} (h : isIdentRest c = true) : Text.isBlank c = false := by
  simp only [isIdentRest, Char.isAlphanum, Bool.or_eq_true, isAlpha_iff, isDigit_iff, decide_eq_true_eq] at h
  rcases h with ((h | h) | h) | rfl
  · simp [Text.isBlank]; omega
  · simp [Text.isBlank]; omega
  · simp [Text.isBlank]; omega
  · decide

/-- A blank ends an identifier. -/
theorem endsWord_of_isBlank (hg : IsBlank gap) (hne : gap ≠ []) : EndsWord (gap ++ text) := by
  obtain ⟨c, gap, rfl⟩ := List.exists_cons_of_ne_nil hne
  rintro d ⟨⟩
  rw [Bool.eq_false_iff]
  intro h
  have := isBlank_of_isIdentRest h
  rw [hg c (List.mem_cons_self)] at this
  cases this

theorem startsWithWord_iff {word : String} :
    startsWithWord word text = true ↔ ∃ after, text = word.toList ++ after ∧ EndsWord after := by
  rw [startsWithWord]
  constructor
  · intro h
    split at h
    · rename_i c after e
      refine ⟨_, (List.isPrefixOf?_eq_some_iff_append_eq.1 e).symm, ?_⟩
      rintro d ⟨⟩
      simpa using h
    · rename_i e
      exact ⟨[], (List.isPrefixOf?_eq_some_iff_append_eq.1 e).symm, nofun⟩
    · cases h
  · rintro ⟨after, rfl, h⟩
    rw [List.isPrefixOf?_eq_some_iff_append_eq.2 rfl]
    cases after with
    | nil => rfl
    | cons c after => simp [h c rfl]

theorem isIdentStart_of_isIdentifier {name : String} (h : isIdentifier name) :
    ∃ c letters, name.toList = c :: letters ∧ isIdentStart c = true ∧ ∀ d ∈ letters, isIdentRest d = true := by
  rw [isIdentifier] at h
  split at h
  · rename_i c letters e
    rw [Bool.and_eq_true, List.all_eq_true] at h
    exact ⟨c, letters, e, h⟩
  · cases h

theorem isSolid_of_isIdentifier {name : String} (h : isIdentifier name) : IsSolid (name.toList ++ text) := by
  obtain ⟨c, letters, e, hc, -⟩ := isIdentStart_of_isIdentifier h
  rw [e]
  exact isSolid_cons (isBlank_of_isIdentRest (isIdentRest_of_isIdentStart hc))

/-- The identifier in front of a text that ends it. -/
theorem identifier?_of_isIdentifier {name : String} (hn : isIdentifier name) (hg : IsBlank gap) (hr : EndsWord after) :
    identifier? (gap ++ (name.toList ++ after)) = some (name, after) := by
  obtain ⟨c, letters, e, hc, hl⟩ := isIdentStart_of_isIdentifier hn
  have ends : (letters ++ after).takeWhile isIdentRest = letters ∧
      (letters ++ after).dropWhile isIdentRest = after := by
    rw [List.takeWhile_append_of_pos hl, List.dropWhile_append_of_pos hl]
    cases after with
    | nil => simp
    | cons d after => simp [hr d rfl]
  rw [identifier?, dropWhile_isBlank hg (isSolid_of_isIdentifier hn), e, List.cons_append]
  simp only [hc, if_true, ends, Option.some.injEq, Prod.mk.injEq, and_true]
  rw [← e, String.ofList_toList]

/-- An identifier goes on for as long as it can. -/
theorem endsWord_of_identifier? {name : String} (h : identifier? text = some (name, after)) : EndsWord after := by
  rw [identifier?] at h
  split at h
  · rename_i rest _
    split at h
    · obtain ⟨-, rfl⟩ := Prod.mk.inj (Option.some.inj h)
      intro c m
      have other := List.head?_dropWhile_not isIdentRest rest
      rw [Option.mem_def.1 m] at other
      exact other
    · cases h
  · cases h

/-- A text that starts with no identifier starts with no keyword. -/
theorem startsWithWord_of_identifier? {word : String} (hw : isIdentifier word)
    (h : ∀ after, identifier? text ≠ some (word, after)) : startsWithWord word text = false := by
  rw [Bool.eq_false_iff]
  intro s
  obtain ⟨after, rfl, hr⟩ := startsWithWord_iff.1 s
  exact h after (identifier?_of_isIdentifier hw isBlank_nil hr)

/-- One word is not the start of another. -/
theorem startsWithWord_of_ne {word other : String} (hw : isIdentifier word) (ho : isIdentifier other)
    (hne : other ≠ word)
    (ha : EndsWord after) : startsWithWord word (other.toList ++ after) = false := by
  refine startsWithWord_of_identifier? hw fun rest h => ?_
  have found : identifier? (other.toList ++ after) = some (other, after) :=
    identifier?_of_isIdentifier ho isBlank_nil ha
  rw [found] at h
  cases h
  exact hne rfl

namespace Parser

/-! ### Runs -/

/-- From the text the parser goes on as another parser from what it leaves. No tag before the text or in what it has
passed has a dash. -/
def LeadsTo (p : Parser α) (text : List Char) (q : Parser α) (rest : List Char) : Prop :=
  ∀ position : Position, ∃ behind : Position,
    p { rest := text, trimNext := false, position } = q { rest, trimNext := false, position := behind }

theorem LeadsTo.trans {p q r : Parser α} (h : LeadsTo p text q more) (h' : LeadsTo q more r after) :
    LeadsTo p text r after := by
  intro position
  obtain ⟨between, h⟩ := h position
  obtain ⟨behind, h'⟩ := h' between
  exact ⟨behind, h.trans h'⟩

/-- From the text the parser reads the value and leaves the rest. -/
structure Takes (p : Parser α) (text : List Char) (value : α) (rest : List Char) : Prop where
  run : LeadsTo p text (pure value) rest

namespace Takes

variable {value : α}

theorem pure : Takes (pure value) text value text :=
  ⟨fun _ => ⟨_, rfl⟩⟩

theorem run_bind {first : β} {p : Parser β} (hp : Takes p text first more) (f : β → Parser α) :
    LeadsTo (p >>= f) text (f first) more := by
  intro position
  obtain ⟨behind, run⟩ := hp.run position
  refine ⟨behind, ?_⟩
  change (p { rest := text, trimNext := false, position }).bind (fun (first, next) => f first next) = _
  rw [run]
  rfl

theorem bind {first : β} {p : Parser β} {f : β → Parser α} (hp : Takes p text first more)
    (hf : Takes (f first) more value after) : Takes (p >>= f) text value after :=
  ⟨(hp.run_bind f).trans hf.run⟩

theorem rest {f : List Char → Parser α} (h : Takes (f text) text value more) : Takes (rest >>= f) text value more :=
  ⟨h.run⟩

theorem get {f : Cursor → Parser α} (h : ∀ cursor, Takes (f cursor) text value more) :
    Takes (get >>= f) text value more :=
  ⟨fun position => (h _).run position⟩

theorem goto {f : Unit → Parser α} {passed : List Char} (h : Takes (f ()) more value after) :
    Takes (goto passed more >>= f) text value after :=
  ⟨fun _ => h.run _⟩

theorem pass {f : Unit → Parser α} {token : String} (h : Takes (f ()) more value after) :
    Takes (pass token more >>= f) text value after :=
  ⟨fun _ => h.run _⟩

theorem yes {test : Parser Bool} {p q : Parser α} (ht : Takes test text true more) (hp : Takes p more value after) :
    Takes (do if ← test then p else q) text value after :=
  ht.bind hp

theorem no {test : Parser Bool} {p q : Parser α} (ht : Takes test text false more) (hq : Takes q more value after) :
    Takes (do if ← test then p else q) text value after :=
  ht.bind hq

end Takes

/-! ### Tokens -/

theorem takes_skipBlank (hg : IsBlank gap) (hr : IsSolid after) : Takes skipBlank (gap ++ after) () after := by
  refine .rest ?_
  rw [dropWhile_isBlank hg hr]
  exact ⟨fun _ => ⟨_, rfl⟩⟩

theorem takes_consume (token : String) : Takes (consume token) (token.toList ++ after) true after := by
  refine .rest ?_
  rw [List.isPrefixOf?_eq_some_iff_append_eq.2 rfl]
  exact .pass .pure

theorem takes_consume_false {token : String} (h : startsWith token text = false) :
    Takes (consume token) text false text := by
  refine .rest ?_
  have : token.toList.isPrefixOf? text = none := by
    rw [← Option.not_isSome_iff_eq_none, List.isSome_isPrefixOf?_eq_isPrefixOf]
    exact Bool.eq_false_iff.1 h
  rw [this]
  exact .pure

theorem takes_peek_false {token : String} (h : startsWith token text = false) : Takes (peek token) text false text := by
  refine .rest ?_
  rw [h]
  exact .pure

theorem startsWith_of_head? {token : String} {c : Char} {letters : List Char} (ht : token.toList = c :: letters)
    (h : text.head? ≠ some c) : startsWith token text = false := by
  rw [startsWith, ht]
  cases text with
  | nil => rfl
  | cons d text =>
    have : c ≠ d := by
      rintro rfl
      exact h rfl
    rw [List.isPrefixOf, beq_false_of_ne this, Bool.false_and]

/-- A token with two characters and more is told from the text by the second. -/
theorem startsWith_of_second {token : String} {first second c : Char} {letters : List Char}
    (ht : token.toList = first :: second :: letters) (h : c ≠ second) :
    startsWith token (first :: c :: text) = false := by
  rw [startsWith, ht, List.isPrefixOf, List.isPrefixOf, beq_false_of_ne h.symm, Bool.false_and, Bool.and_false]

theorem head?_cons_ne {c d : Char} (h : c ≠ d) : (c :: text).head? ≠ some d :=
  fun e => h (Option.some.inj e)

theorem takes_consume_ne {token : String} {c : Char} {letters : List Char} (ht : token.toList = c :: letters)
    (h : text.head? ≠ some c) : Takes (consume token) text false text :=
  takes_consume_false (startsWith_of_head? ht h)

theorem takes_peek_ne {token : String} {c : Char} {letters : List Char} (ht : token.toList = c :: letters)
    (h : text.head? ≠ some c) : Takes (peek token) text false text :=
  takes_peek_false (startsWith_of_head? ht h)

theorem takes_expect (token : String) : Takes (expect token) (token.toList ++ after) () after :=
  .yes (takes_consume token) .pure

theorem takes_consumeWord {word : String} (hw : isIdentifier word) (hg : IsBlank gap) (hr : EndsWord after) :
    Takes (consumeWord word) (gap ++ (word.toList ++ after)) true after := by
  refine (takes_skipBlank hg (isSolid_of_isIdentifier hw)).bind (.rest ?_)
  rw [startsWithWord_iff.2 ⟨after, rfl, hr⟩]
  exact takes_consume word

theorem takes_consumeWord_ne {word : String} (hg : IsBlank gap) (hr : IsSolid after)
    (h : startsWithWord word after = false) : Takes (consumeWord word) (gap ++ after) false after := by
  refine (takes_skipBlank hg hr).bind (.rest ?_)
  rw [h]
  exact .pure

theorem takes_expectWord {word : String} (hw : isIdentifier word) (hg : IsBlank gap) (hr : EndsWord after) :
    Takes (expectWord word) (gap ++ (word.toList ++ after)) () after :=
  .yes (takes_consumeWord hw hg hr) .pure

theorem takes_identifier {name : String} (hn : isIdentifier name) (hg : IsBlank gap) (hr : EndsWord after) :
    Takes identifier (gap ++ (name.toList ++ after)) name after := by
  refine (takes_skipBlank hg (isSolid_of_isIdentifier hn)).bind (.rest ?_)
  have found : identifier? (name.toList ++ after) = some (name, after) := identifier?_of_isIdentifier hn isBlank_nil hr
  rw [found]
  exact .goto .pure

/-! Where no blank stands in front. -/

theorem takes_skipBlank_here (hr : IsSolid after) : Takes skipBlank after () after :=
  takes_skipBlank isBlank_nil hr

theorem takes_consumeWord_here {word : String} (hw : isIdentifier word) (hr : EndsWord after) :
    Takes (consumeWord word) (word.toList ++ after) true after :=
  takes_consumeWord hw isBlank_nil hr

theorem takes_consumeWord_ne_here {word : String} (hr : IsSolid after) (h : startsWithWord word after = false) :
    Takes (consumeWord word) after false after :=
  takes_consumeWord_ne isBlank_nil hr h

theorem takes_expectWord_here {word : String} (hw : isIdentifier word) (hr : EndsWord after) :
    Takes (expectWord word) (word.toList ++ after) () after :=
  takes_expectWord hw isBlank_nil hr

theorem takes_identifier_here {name : String} (hn : isIdentifier name) (hr : EndsWord after) :
    Takes identifier (name.toList ++ after) name after :=
  takes_identifier hn isBlank_nil hr

end Parser

end Folio.Template
