import Folio.Proofs.Template.Precedence
import Mathlib.Order.Basic

/-! The levels of the parser one by one. A level reads a text as an expression whatever stops it behind; that the text
starts and ends as a printed expression does is told from its first token and from the token behind it. -/
namespace Folio.Template

variable {text more after gap : List Char}

/-! ### Beginnings and ends of printed text -/

theorem Starts.mono {level higher : Nat} (h : Starts higher text) (hl : level ≤ higher) : Starts level text :=
  ⟨h.solid, h.close, fun l => h.sign (Nat.lt_of_lt_of_le l hl), fun l => h.word (Nat.lt_of_lt_of_le l hl)⟩

theorem starts_of_led {level : Nat} {tokens : List Token} {chars : List Char} (hl : Led level tokens)
    (hp : Plain tokens) (hw : Written tokens chars) (rest : List Char) : Starts level (chars ++ rest) := by
  obtain ⟨token, more, rfl, hl⟩ := hl
  obtain ⟨chars, gap, text, rfl, ht, hne, hg, -⟩ := written_cons.1 hw
  rw [List.append_assoc, List.append_assoc]
  exact starts_of_written ht (hp token List.mem_cons_self) hl (endsWord_of_isBlank hg hne)

/-- The level of a token as an operator. -/
def Token.level? : Token → Option Nat
  | .literal _ => none
  | .word name => wordLevel? name
  | .mark symbol => symbol.toList.head?.bind symbolLevel?

theorem stops_of_word {level : Nat} {word : String} (hw : isIdentifier word) (hr : EndsWord after)
    (h : ∀ k ∈ wordLevel? word, k < level) : Stops level (word.toList ++ after) := by
  have found : identifier? (word.toList ++ after) = some (word, after) := identifier?_of_isIdentifier hw isBlank_nil hr
  obtain ⟨c, letters, e, hc, -⟩ := isIdentStart_of_isIdentifier hw
  refine ⟨isSolid_of_isIdentifier hw, fun k hk => h k ?_⟩
  rw [e, List.cons_append] at found hk
  rw [operatorLevel?, if_pos hc, found] at hk
  exact hk

theorem stops_of_symbol {level : Nat} {c : Char} (hb : Text.isBlank c = false) (hc : isIdentStart c = false)
    (h : ∀ k ∈ symbolLevel? c, k < level) : Stops level (c :: text) := by
  refine ⟨isSolid_cons hb, fun k hk => h k ?_⟩
  rw [operatorLevel?, if_neg (Bool.eq_false_iff.1 hc)] at hk
  split at hk
  · cases hk
  · exact hk

theorem stops_of_written {level : Nat} {token : Token} {tokens : List Token} {chars : List Char}
    (hw : Written (token :: tokens) chars) (hp : token.IsPlain) (ht : ∀ value, token ≠ .literal value)
    (h : ∀ k ∈ token.level?, k < level) (rest : List Char) : Stops level (chars ++ rest) := by
  cases token with
  | literal value => exact absurd rfl (ht value)
  | word name =>
    obtain ⟨gap, more, hne, hg, -, rfl⟩ := written_word_cons hw
    rw [List.append_assoc, List.append_assoc]
    exact stops_of_word hp (endsWord_of_isBlank hg hne) h
  | mark symbol =>
    obtain ⟨gap, more, -, -, -, rfl⟩ := written_mark_cons hw
    obtain ⟨c, letters, e, hb, -⟩ := (Token.head_of_written (.mark symbol) hp).cons
    have starts : ∀ symbol ∈ symbols, isIdentStart (symbol.toList.headD ' ') = false := by decide
    rw [List.append_assoc, List.append_assoc]
    have hs := starts symbol hp
    rw [Token.level?, e] at h
    rw [e] at hs ⊢
    exact stops_of_symbol hb hs h

namespace Parser

/-! ### Levels -/

/-- The parser of a level. Signs and the words `not` in front of an operand have rounds of their own. -/
def level (inner : Parser Expr) (bound rounds : Nat) : Nat → Parser Expr
  | 0 => conditional inner bound
  | 1 => disjunction inner bound
  | 2 => conjunction inner bound
  | 3 => negation inner bound rounds
  | 4 => compared inner bound
  | 5 => join inner bound
  | 6 => sum inner bound
  | 7 => product inner bound
  | 8 => signed inner bound rounds
  | _ => postfixed inner bound

/-- One round of the loop of a level. -/
def step (inner : Parser Expr) (bound : Nat) : Nat → Expr → Parser (Option Expr)
  | 1 => disjunctionStep inner bound
  | 2 => conjunctionStep inner bound
  | 4 => comparisonStep inner bound
  | 5 => joinStep inner bound
  | 6 => sumStep inner bound
  | 7 => productStep inner bound
  | _ => postfixStep inner bound

/-- The levels of operators with two operands, which the parser reads in a loop. -/
def infixLevels : List Nat :=
  [1, 2, 4, 5, 6, 7]

/-- The levels that the parser reads in a loop. -/
def loopLevels : List Nat :=
  infixLevels ++ [9]

section Levels

variable {inner : Parser Expr} {bound L : Nat}

theorem level_eq_extendWhile (hL : L ∈ infixLevels) (rounds : Nat) : level inner bound rounds L = (do
    extendWhile (step inner bound L) bound (← level inner bound bound (L + 1))) := by
  simp only [infixLevels, List.mem_cons, List.not_mem_nil, or_false] at hL
  rcases hL with rfl | rfl | rfl | rfl | rfl | rfl <;> rfl

theorem level_rounds (hL : L ∈ loopLevels) (rounds other : Nat) :
    level inner bound rounds L = level inner bound other L := by
  rcases List.mem_append.1 hL with hL | hL
  · rw [level_eq_extendWhile hL, level_eq_extendWhile hL]
  · rw [List.mem_singleton.1 hL]
    rfl

theorem takes_step_none (hL : L ∈ loopLevels) {left : Expr} (hg : IsBlank gap) (h : Stops L text) :
    Takes (step inner bound L left) (gap ++ text) none text := by
  simp only [loopLevels, infixLevels, List.mem_append, List.mem_cons, List.not_mem_nil, or_false] at hL
  rcases hL with (rfl | rfl | rfl | rfl | rfl | rfl) | rfl
  · exact takes_disjunctionStep_none hg h le_rfl
  · exact takes_conjunctionStep_none hg h le_rfl
  · exact takes_comparisonStep_none hg h le_rfl
  · exact takes_joinStep_none hg h le_rfl
  · exact takes_sumStep_none hg h le_rfl
  · exact takes_productStep_none hg h le_rfl
  · exact takes_postfixStep_none hg h le_rfl

end Levels

theorem takes_extendWhile {α : Type} {step : α → Parser (Option α)} {value : α} {rounds : Nat}
    (h : Takes (step value) text none after) : Takes (extendWhile step (rounds + 1) value) text value after :=
  h.bind .pure

theorem extendWhile_of_takes {α : Type} {step : α → Parser (Option α)} {value longer : α} {rounds : Nat}
    (h : Takes (step value) text (some longer) after) :
    LeadsTo (extendWhile step (rounds + 1) value) text (extendWhile step rounds longer) after :=
  h.run_bind _

/-! ### Texts that a level reads -/

/-- The bounds are enough for the text: the one on what is nested in it, and the one on the rounds of a loop. -/
def Fits (depth bound : Nat) (text : List Char) : Prop :=
  text.length ≤ depth ∧ text.length < bound

/-- The parser of the level reads the text as the expression, whatever stops it behind. -/
def Reads (L : Nat) (chars : List Char) (e : Expr) : Prop :=
  ∀ ⦃depth bound rounds : Nat⦄ ⦃gap rest : List Char⦄, IsBlank gap → Fits depth bound (chars ++ rest) →
    (chars ++ rest).length < rounds → Stops L rest →
    Takes (level (expression depth) bound rounds L) (gap ++ (chars ++ rest)) e rest

/-- The parser of the level comes to the expression behind the text, in its loop, which may go on. -/
def Reaches (L : Nat) (chars : List Char) (e : Expr) : Prop :=
  ∀ ⦃depth bound : Nat⦄ ⦃gap rest : List Char⦄, IsBlank gap → Fits depth bound (chars ++ rest) → Stops (L + 1) rest →
    ∃ rounds space, IsBlank space ∧ rest.length < rounds ∧
      LeadsTo (level (expression depth) bound bound L) (gap ++ (chars ++ rest))
        (extendWhile (step (expression depth) bound L) rounds e) (space ++ rest)

/-- The text is the expression at the level and, if that has a loop, the loop can start with it. -/
structure At (L : Nat) (chars : List Char) (e : Expr) : Prop where
  reads : Reads L chars e
  reaches : L ∈ loopLevels → Reaches L chars e

section Texts

variable {L : Nat} {chars : List Char} {e : Expr}

theorem Reaches.reads (hL : L ∈ loopLevels) (h : Reaches L chars e) : Reads L chars e := by
  intro depth bound rounds gap rest hg hb _ hs
  obtain ⟨n, space, hspace, hn, run⟩ := h hg hb (hs.mono (Nat.le_succ L))
  obtain ⟨n, rfl⟩ := Nat.exists_eq_succ_of_ne_zero (by omega : n ≠ 0)
  rw [level_rounds hL rounds bound]
  exact ⟨run.trans (takes_extendWhile (takes_step_none hL hspace hs)).run⟩

theorem at_of_reaches (hL : L ∈ loopLevels) (h : Reaches L chars e) : At L chars e :=
  ⟨h.reads hL, fun _ => h⟩

/-- An operand of a loop is where the loop starts. -/
theorem Reads.reaches (hL : L ∈ infixLevels) (h : Reads (L + 1) chars e) : Reaches L chars e := by
  intro depth bound gap rest hg hb hs
  have run := h hg hb hb.2 hs
  refine ⟨bound, [], isBlank_nil, ?_, ?_⟩
  · simp only [Fits, List.length_append] at hb
    omega
  · rw [level_eq_extendWhile hL]
    exact run.run_bind _

/-- What binds more tightly is an operand without signs, without `not`, and without a condition. -/
theorem Reads.signed (h : Reads 9 chars e) (hs : ∀ rest, Starts 9 (chars ++ rest)) : Reads 8 chars e := by
  intro depth bound rounds gap rest hg hb hr stops
  obtain ⟨rounds, rfl⟩ := Nat.exists_eq_succ_of_ne_zero (by omega : rounds ≠ 0)
  have sign := (hs rest).sign (by decide)
  refine (takes_skipBlank hg (hs rest).solid).bind (.no (takes_consume_ne rfl (sign '-' (by decide))) ?_)
  exact .no (takes_consume_ne rfl (sign '+' (by decide))) (h isBlank_nil hb hr (stops.mono (by decide)))

theorem Reads.negation (h : Reads 4 chars e) (hs : ∀ rest, Starts 4 (chars ++ rest)) : Reads 3 chars e := by
  intro depth bound rounds gap rest hg hb hr stops
  obtain ⟨rounds, rfl⟩ := Nat.exists_eq_succ_of_ne_zero (by omega : rounds ≠ 0)
  refine .no (takes_consumeWord_ne hg (hs rest).solid ((hs rest).word (by decide))) ?_
  exact h isBlank_nil hb hr (stops.mono (by decide))

theorem Reads.conditional (h : Reads 1 chars e) : Reads 0 chars e := by
  intro depth bound rounds gap rest hg hb hr stops
  have word := stops.word le_rfl (by decide : isIdentifier "if") rfl
  exact (h hg hb hr (stops.mono (by decide))).bind (.no (takes_consumeWord_ne_here stops.solid word) .pure)

theorem At.down (h : At (L + 1) chars e) (hL : L ≤ 8) (hs : ∀ rest, Starts (L + 1) (chars ++ rest)) : At L chars e := by
  by_cases loop : L ∈ infixLevels
  · exact at_of_reaches (List.mem_append_left _ loop) (h.reads.reaches loop)
  · have prefixes : ∀ L ≤ 8, L ∉ infixLevels → L = 0 ∨ L = 3 ∨ L = 8 := by decide
    rcases prefixes L hL loop with rfl | rfl | rfl
    · exact ⟨h.reads.conditional, fun m => absurd m (by decide)⟩
    · exact ⟨h.reads.negation hs, fun m => absurd m (by decide)⟩
    · exact ⟨h.reads.signed hs, fun m => absurd m (by decide)⟩

/-- An expression is read at every level below its own. -/
theorem At.below {K : Nat} (h : At K chars e) (hK : K ≤ 9) (hs : ∀ rest, Starts K (chars ++ rest)) (hl : L ≤ K) :
    At L chars e := by
  induction K, hl using Nat.le_induction with
  | base => exact h
  | succ K hl ih =>
    exact ih (h.down (by omega) hs) (by omega) fun rest => (hs rest).mono (Nat.le_succ K)

/-- An operator and its operand behind an expression make a longer one. -/
theorem Reaches.extend {operand : List Char} {longer : Expr} (hL : L ∈ loopLevels) (h : Reaches L chars e)
    (hne : operand ≠ []) (ho : ∀ rest, Stops (L + 1) (operand ++ rest))
    (hs : ∀ depth bound gap rest, IsBlank gap → Fits depth bound (operand ++ rest) → Stops (L + 1) rest →
      ∃ space, IsBlank space ∧
        Takes (step (expression depth) bound L e) (gap ++ (operand ++ rest)) (some longer) (space ++ rest)) :
    At L (chars ++ operand) longer := by
  refine at_of_reaches hL fun depth bound gap rest hg hb stops => ?_
  rw [List.append_assoc] at hb ⊢
  obtain ⟨rounds, space, hspace, hr, run⟩ := h hg hb (ho rest)
  obtain ⟨rounds, rfl⟩ := Nat.exists_eq_succ_of_ne_zero (by omega : rounds ≠ 0)
  have enough : Fits depth bound (operand ++ rest) := by
    simp only [Fits, List.length_append] at hb ⊢
    omega
  obtain ⟨space', hspace', one⟩ := hs depth bound space rest hspace enough stops
  refine ⟨rounds, space', hspace', ?_, ?_⟩
  · have := List.length_pos_iff.2 hne
    rw [List.length_append] at hr
    omega
  · exact run.trans (extendWhile_of_takes one)

/-- What opens an expression is where the loop of lookups, calls, filters and tests starts. -/
theorem at_of_primary (h : ∀ depth bound gap rest, IsBlank gap → Fits depth bound (chars ++ rest) →
    ∃ space, IsBlank space ∧ Takes (primary (expression depth) bound) (gap ++ (chars ++ rest)) e (space ++ rest)) :
    At 9 chars e := by
  refine at_of_reaches (by decide) fun depth bound gap rest hg hb stops => ?_
  obtain ⟨space, hspace, run⟩ := h depth bound gap rest hg hb
  refine ⟨bound, space, hspace, ?_, ?_⟩
  · simp only [Fits, List.length_append] at hb
    omega
  · exact run.run_bind _

/-- A whole expression inside something that took a character. -/
theorem At.inside (h : At 0 chars e) {bound : Nat} (hg : IsBlank gap) (hb : (chars ++ text).length < bound)
    (hs : Stops 0 text) : Takes (expression bound) (gap ++ (chars ++ text)) e text := by
  obtain ⟨bound, rfl⟩ := Nat.exists_eq_succ_of_ne_zero (by omega : bound ≠ 0)
  exact h.reads hg ⟨Nat.le_of_lt_succ hb, hb⟩ hb hs

end Texts

end Parser

end Folio.Template
