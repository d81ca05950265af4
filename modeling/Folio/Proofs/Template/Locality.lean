import Folio.Proofs.Template.Grammar
import Folio.Proofs.Template.Lookahead

/-! What follows a construct. A parser that stops in front of a closing delimiter has looked no further than that, so
that it reads the same from the text with more behind it, and with larger bounds on its rounds. -/
namespace Folio.Template

variable {text after more : List Char}

/-- No delimiter of the text has a dash. -/
structure Dashless (text : List Char) : Prop where
  opening : ∀ c ∈ ['{', '%', '#'], ¬ ['{', c, '-'] <:+: text
  closing : ∀ c ∈ ['}', '%', '#'], ¬ ['-', c, '}'] <:+: text

instance (text : List Char) : Decidable (Dashless text) :=
  have opening := List.decidableBAll (fun c => ¬ ['{', c, '-'] <:+: text) ['{', '%', '#']
  have closing := List.decidableBAll (fun c => ¬ ['-', c, '}'] <:+: text) ['}', '%', '#']
  @decidable_of_iff _ (_ ∧ _) ⟨fun h => ⟨h.1, h.2⟩, fun h => ⟨h.opening, h.closing⟩⟩
    (@instDecidableAnd _ _ opening closing)

theorem Dashless.of_suffix (h : Dashless text) (s : after <:+ text) : Dashless after :=
  ⟨fun c hc i => h.opening c hc (i.trans s.isInfix), fun c hc i => h.closing c hc (i.trans s.isInfix)⟩

namespace Parser

variable {α β : Type}

/-! ### Reading on from a longer text -/

/-- What the parser reads from the text, the other one reads with more text behind it, as long as what is left covers
that. Nothing has been read that trims. -/
def ExtendsAt (more text : List Char) (p q : Parser α) : Prop :=
  ∀ (position : Position) (value : α) (next : Cursor),
    p { rest := text, trimNext := false, position } = .ok (value, next) →
    next.rest <:+ text ∧ next.trimNext = false ∧
      (Covers more next.rest → Takes q (text ++ more) value (next.rest ++ more))

def Extends (p q : Parser α) : Prop :=
  ∀ more text, Dashless text → ExtendsAt more text p q

namespace ExtendsAt

variable {p q : Parser α}

/-- The parsers may be looked at where the text covers what follows. -/
theorem of_covers (h : ∀ more, Covers more text → ExtendsAt more text p q) (more : List Char) :
    ExtendsAt more text p q := by
  intro position value next run
  obtain ⟨s, trim, -⟩ := h [] (.inl rfl) position value next run
  exact ⟨s, trim, fun c => (h more (c.of_suffix s) position value next run).2.2 c⟩

theorem pure {value : α} : ExtendsAt more text (pure value) (pure value) := by
  rintro position _ _ ⟨⟩
  exact ⟨List.suffix_rfl, rfl, fun _ => .pure⟩

theorem fail {cause : ParseError.Cause} : ExtendsAt more text (fail cause) q :=
  nofun

theorem rest {f g : List Char → Parser α} (h : ExtendsAt more text (f text) (g (text ++ more))) :
    ExtendsAt more text (rest >>= f) (rest >>= g) := by
  intro position value next run
  obtain ⟨s, trim, takes⟩ := h position value next run
  exact ⟨s, trim, fun c => .rest (takes c)⟩

theorem goto {f g : Unit → Parser α} {passed passed' : List Char} (s : after <:+ text)
    (h : ExtendsAt more after (f ()) (g ())) :
    ExtendsAt more text (goto passed after >>= f) (Parser.goto passed' (after ++ more) >>= g) := by
  intro position value next run
  obtain ⟨s', trim, takes⟩ := h _ value next run
  exact ⟨s'.trans s, trim, fun c => .goto (takes c)⟩

theorem goto_fail {passed : List Char} {cause : ParseError.Cause} :
    ExtendsAt more text (do Parser.goto passed after; Parser.fail cause) q :=
  nofun

theorem pass {f g : Unit → Parser α} {token : String} (s : after <:+ text) (h : ExtendsAt more after (f ()) (g ())) :
    ExtendsAt more text (pass token after >>= f) (Parser.pass token (after ++ more) >>= g) := by
  intro position value next run
  obtain ⟨s', trim, takes⟩ := h _ value next run
  exact ⟨s'.trans s, trim, fun c => .pass (takes c)⟩

theorem bind {first second : Parser β} {f g : β → Parser α} (hp : ExtendsAt more text first second)
    (hf : ∀ value after, after <:+ text → ExtendsAt more after (f value) (g value)) :
    ExtendsAt more text (first >>= f) (second >>= g) := by
  intro position value last run
  obtain ⟨between, next, run, run'⟩ := exists_of_bind run
  obtain ⟨s, trim, takes⟩ := hp position between next run
  have start : next = { rest := next.rest, trimNext := false, position := next.position } := by rw [← trim]
  rw [start] at run'
  obtain ⟨s', trim', takes'⟩ := hf between next.rest s next.position value last run'
  exact ⟨s'.trans s, trim', fun c => (takes (c.of_suffix s')).bind (takes' c)⟩

theorem ite {c : Prop} [Decidable c] {p' q' : Parser α} (hp : ExtendsAt more text p p')
    (hq : ExtendsAt more text q q') : ExtendsAt more text (if c then p else q) (if c then p' else q') := by
  split
  · exact hp
  · exact hq

end ExtendsAt

namespace Extends

variable {p q : Parser α}

theorem pure {value : α} : Extends (pure value) (pure value) :=
  fun _ _ _ => .pure

theorem fail {cause : ParseError.Cause} : Extends (fail cause) q :=
  fun _ _ _ => .fail

theorem bind {first second : Parser β} {f g : β → Parser α} (hp : Extends first second)
    (hf : ∀ value, Extends (f value) (g value)) : Extends (first >>= f) (second >>= g) :=
  fun more text hd => .bind (hp more text hd) fun value after s => hf value more after (hd.of_suffix s)

theorem ite {c : Prop} [Decidable c] {p' q' : Parser α} (hp : Extends p p') (hq : Extends q q') :
    Extends (if c then p else q) (if c then p' else q') :=
  fun more text hd => .ite (hp more text hd) (hq more text hd)

/-- A branch on what a parser has found. -/
theorem choice {test : Parser Bool} {p' q' : Parser α} (ht : Extends test test) (hp : Extends p p')
    (hq : Extends q q') : Extends (do if ← test then p else q) (do if ← test then p' else q') :=
  .bind ht fun _ => .ite hp hq

end Extends

/-! ### Tokens -/

section Tokens

theorem extends_peek {token : String} (ht : IsAtomic token) : Extends (peek token) (peek token) := by
  refine fun more text _ => .of_covers (fun more h => .rest ?_) more
  rw [h.startsWith_append ht]
  exact .pure

theorem extends_atEnd : Extends atEnd atEnd := by
  refine fun more text _ => .of_covers (fun more h => .rest ?_) more
  rcases h.braced.exists_cons with rfl | ⟨c, rest, rfl⟩
  · rw [List.append_nil]
    exact .pure
  · exact .pure

theorem extends_skipBlank : Extends skipBlank skipBlank := by
  refine fun more text _ => .of_covers (fun more h => .rest ?_) more
  rw [h.braced.dropWhile_append (by decide)]
  exact .goto (List.dropWhile_suffix _) .pure

theorem extends_consume {token : String} (ht : IsAtomic token) : Extends (consume token) (consume token) := by
  refine fun more text _ => .of_covers (fun more h => .rest ?_) more
  rw [h.isPrefixOf?_append ht]
  cases e : token.toList.isPrefixOf? text with
  | some after => exact .pass (suffix_of_isPrefixOf? e) .pure
  | none => exact .pure

theorem extends_consumeWord {word : String} (hw : Closeless word.toList) :
    Extends (consumeWord word) (consumeWord word) := by
  refine .bind extends_skipBlank fun _ => fun more text hd => .of_covers (fun more h => .rest ?_) more
  rw [h.startsWithWord_append hw]
  exact .ite (extends_consume hw.isAtomic more text hd) .pure

/-- Blanks and a word do not close anything. -/
theorem covers_of_consumeWord {word : String} (h : Covers more text) (hw : Closeless word.toList)
    {trimNext found : Bool} {position : Position} {next : Cursor}
    (run : consumeWord word { rest := text, trimNext, position } = .ok (found, next)) : Covers more next.rest := by
  have behind := h.dropWhile
  obtain ⟨_, _, skip, run⟩ := exists_of_bind run
  cases skip
  obtain ⟨_, _, look, run⟩ := exists_of_bind run
  cases look
  cases e : startsWithWord word (text.dropWhile Text.isBlank) with
  | false =>
    rw [e] at run
    cases run
    exact behind
  | true =>
    rw [e] at run
    obtain ⟨after, cut, -⟩ := startsWithWord_iff.1 e
    rw [cut] at behind
    have rest : next.rest = after := by
      rw [(rest_of_consume run).2.1, cut, dropToken, List.isPrefixOf?_eq_some_iff_append_eq.2 rfl]
      rfl
    exact rest ▸ behind.behind hw

theorem extends_failExpected (token : String) (q : Parser α) : Extends (failExpected token) q :=
  fun _ _ _ _ _ _ run => nomatch run

theorem extends_expect {token : String} (ht : IsAtomic token) : Extends (expect token) (expect token) :=
  .choice (extends_consume ht) .pure (.choice extends_atEnd .fail (extends_failExpected token _))

theorem extends_expectWord {word : String} (hw : Closeless word.toList) :
    Extends (expectWord word) (expectWord word) :=
  .choice (extends_consumeWord hw) .pure (extends_failExpected word _)

theorem extends_identifier : Extends identifier identifier := by
  refine .bind extends_skipBlank fun _ => fun more text _ => .of_covers (fun more h => .rest ?_) more
  rw [h.braced.identifier?_more]
  cases e : identifier? text with
  | some found => exact .goto ⟨_, identifier?_append e⟩ .pure
  | none =>
    refine .rest ?_
    cases text with
    | nil => exact .fail
    | cons => exact .fail

end Tokens

/-! ### Literals -/

/-- A string ends at its quote, whatever stands behind that. -/
theorem exists_of_stringBody {quote : Char} {body : List Char} (e : stringBody quote text = some (body, after)) :
    ∃ read, text = read ++ after ∧ ∀ more, stringBody quote (read ++ more) = some (body, more) := by
  fun_induction stringBody quote text generalizing body with
  | case1 => cases e
  | case2 rest =>
    cases e
    refine ⟨[quote], rfl, fun more => ?_⟩
    rw [List.singleton_append, stringBody.eq_def]
    exact if_pos rfl
  | case3 => cases e
  | case4 escape escaped rest hq =>
    rename_i ih
    obtain ⟨⟨body, after⟩, e, h⟩ := Option.map_eq_some_iff.1 e
    cases h
    obtain ⟨read, rfl, all⟩ := ih e
    refine ⟨_ :: _ :: read, rfl, fun more => ?_⟩
    rw [List.cons_append, List.cons_append, stringBody.eq_def]
    dsimp only
    rw [if_neg hq, if_pos rfl, all]
    rfl
  | case5 c rest hq hb ih =>
    obtain ⟨⟨body, after⟩, e, h⟩ := Option.map_eq_some_iff.1 e
    cases h
    obtain ⟨read, rfl, all⟩ := ih e
    refine ⟨c :: read, rfl, fun more => ?_⟩
    rw [List.cons_append, stringBody.eq_def]
    dsimp only
    rw [if_neg hq, if_neg hb, all]
    rfl

theorem extends_stringLiteral (quote : Char) : Extends (stringLiteral quote) (stringLiteral quote) := by
  refine fun more text _ => .of_covers (fun more h => .rest ?_) more
  have behind : (text ++ more).drop 1 = text.drop 1 ++ more := by
    rcases h.braced.exists_cons with rfl | ⟨c, rest, rfl⟩
    · simp
    · rfl
  rw [behind]
  cases e : stringBody quote (text.drop 1) with
  | none => exact .goto_fail
  | some read =>
    obtain ⟨body, after⟩ := read
    obtain ⟨inside, split, all⟩ := exists_of_stringBody e
    rw [split, List.append_assoc, all]
    exact .goto ((stringBody_suffix e).trans (List.drop_suffix 1 text)) .pure

theorem extendsAt_integer (whole : List Char) (s : after <:+ text) :
    ExtendsAt more text (number.integer whole after) (number.integer whole (after ++ more)) := by
  refine .goto s ?_
  dsimp only
  split
  · exact .pure
  · exact .fail

theorem extends_number : Extends number number := by
  refine fun more text _ => .of_covers (fun more h => .rest ?_) more
  rw [h.braced.takeWhile_append (by decide), h.braced.dropWhile_append (by decide)]
  have s : text.dropWhile Char.isDigit <:+ text := List.dropWhile_suffix _
  have braced := h.braced.dropWhile (p := Char.isDigit) (by decide)
  dsimp only
  -- A point with a digit behind it goes on with a fraction, and neither can come from the text that is added.
  generalize text.dropWhile Char.isDigit = behind at s braced
  split
  · rename_i d after
    refine .ite ?_ (extendsAt_integer _ s)
    have fraction := braced.of_cons (by decide)
    have take : (d :: (after ++ more)).takeWhile Char.isDigit = (d :: after).takeWhile Char.isDigit :=
      fraction.takeWhile_append (by decide)
    have drop : (d :: (after ++ more)).dropWhile Char.isDigit = (d :: after).dropWhile Char.isDigit ++ more :=
      fraction.dropWhile_append (by decide)
    rw [List.append_eq, take, drop]
    exact .goto ((List.dropWhile_suffix _).trans ((List.suffix_cons _ _).trans s)) .pure
  · split
    · rename_i plain _ d after e
      obtain ⟨after, e, -⟩ := braced.exists_of_append_eq (by decide) e
      exact absurd e (plain d after)
    · exact extendsAt_integer _ s

/-- A single equals sign is told from a double one. -/
theorem extendsAt_sign {behind : List Char} {p p' : Parser α} {f f' : List Char → Parser α} (h : Braced more behind)
    (hp : ExtendsAt more text p p')
    (hf : ∀ value, '=' :: value = behind → ExtendsAt more text (f value) (f' (value ++ more))) :
    ExtendsAt more text
      (match behind with
        | '=' :: '=' :: _ => p
        | '=' :: value => f value
        | _ => p)
      (match behind ++ more with
        | '=' :: '=' :: _ => p'
        | '=' :: value => f' value
        | _ => p') := by
  have double {rest} (e : behind ++ more = '=' :: '=' :: rest) : ∃ rest, behind = '=' :: '=' :: rest := by
    obtain ⟨rest, e, -⟩ := h.exists_of_append_eq (by decide) e
    exact ⟨rest, e⟩
  split
  · exact hp
  · rename_i value single
    split
    · rename_i e
      obtain ⟨rest, e⟩ := double e
      exact absurd (List.cons.inj e).2 (single rest)
    · rename_i e
      obtain rfl := (List.cons.inj e).2
      exact hf value rfl
    · rename_i ne
      exact absurd rfl (ne _)
  · rename_i ne
    split
    · rename_i e
      obtain ⟨rest, e⟩ := double e
      exact absurd e (ne _)
    · rename_i e
      rcases h.exists_cons with rfl | ⟨c, rest, rfl⟩
      · rw [List.append_nil] at e
        exact absurd e (ne _)
      · obtain rfl := (List.cons.inj e).1
        exact absurd rfl (ne rest)
    · exact hp

theorem extends_skipArgumentName : Extends skipArgumentName skipArgumentName := by
  refine fun more text _ => .of_covers (fun more h => .rest ?_) more
  rw [h.braced.identifier?_more]
  cases e : identifier? text with
  | none => exact .pure
  | some found =>
    obtain ⟨name, after⟩ := found
    have braced := h.braced.of_identifier? e
    rw [Option.map_some]
    dsimp only
    rw [braced.dropWhile_append (by decide)]
    refine extendsAt_sign (braced.dropWhile (by decide)) .pure fun value sign => .goto ?_ .pure
    have s : after.dropWhile Text.isBlank <:+ text := (List.dropWhile_suffix _).trans ⟨_, identifier?_append e⟩
    exact (List.suffix_cons '=' value).trans (sign ▸ s)

/-! ### Levels -/

theorem extends_primary {inner inner' : Parser Expr} {rounds rounds' : Nat} (hi : Extends inner inner')
    (items : Extends (listUntil "]" inner rounds) (listUntil "]" inner' rounds'))
    (entries : Extends (listUntil "\x7d" (dictEntry inner) rounds) (listUntil "\x7d" (dictEntry inner') rounds')) :
    Extends (primary inner rounds) (primary inner' rounds') := by
  refine .bind extends_skipBlank fun _ => fun more text hd => .of_covers (fun more h => .rest ?_) more
  have bracket {c : Char} {after : List Char} (hd : Dashless (c :: after)) {p p' : Parser Expr} (hp : Extends p p') :
      ExtendsAt more (c :: after) (do goto [c] after; p) (do goto [c] (after ++ more); p') :=
    .goto (List.suffix_cons c after) (hp more after (hd.of_suffix (List.suffix_cons c after)))
  split
  · exact .fail
  · exact bracket hd (.bind hi fun _ => .bind extends_skipBlank fun _ =>
      .bind (extends_expect (by decide)) fun _ => .pure)
  · exact bracket hd (.bind items fun _ => .pure)
  · exact bracket hd (.bind entries fun _ => .pure)
  · rename_i c after round square curly
    have string : Extends (do return .literal (.string (← stringLiteral c)) : Parser Expr)
        (do return .literal (.string (← stringLiteral c))) :=
      .bind (extends_stringLiteral c) fun _ => .pure
    have number : Extends (do return .literal (← number) : Parser Expr) (do return .literal (← number)) :=
      .bind extends_number fun _ => .pure
    have name : Extends (do return nameOrConstant (← identifier) : Parser Expr)
        (do return nameOrConstant (← identifier)) :=
      .bind extends_identifier fun _ => .pure
    intro position value next run
    split
    · rename_i e
      cases e
    · rename_i e
      exact absurd (List.cons.inj e).1 round
    · rename_i e
      exact absurd (List.cons.inj e).1 square
    · rename_i e
      exact absurd (List.cons.inj e).1 curly
    · rename_i e
      obtain ⟨rfl, rfl⟩ := List.cons.inj e
      refine ExtendsAt.ite (string more _ hd) ?_ position value next run
      exact .ite (number more _ hd) (.ite (name more _ hd) .fail)

theorem extends_lookupKey : Extends lookupKey lookupKey := by
  have name : Extends (do return .string (← identifier) : Parser Value) (do return .string (← identifier)) :=
    .bind extends_identifier fun _ => .pure
  refine fun more text hd => .of_covers (fun more h => .rest ?_) more
  cases text with
  | cons c rest => exact .ite (extends_number more _ hd) (name more _ hd)
  | nil =>
    obtain rfl | ⟨_, _, e⟩ := h.braced.exists_cons
    · exact name [] _ hd
    · cases e

theorem extends_signed {inner inner' : Parser Expr} {rounds rounds' signs signs' : Nat}
    (hp : Extends (postfixed inner rounds) (postfixed inner' rounds')) (hs : signs ≤ signs') :
    Extends (signed inner rounds signs) (signed inner' rounds' signs') := by
  induction signs generalizing signs' with
  | zero => exact .fail
  | succ signs ih =>
    cases signs' with
    | zero => exact absurd hs (Nat.not_succ_le_zero _)
    | succ signs' =>
      have ih := ih (Nat.le_of_succ_le_succ hs)
      refine .bind extends_skipBlank fun _ => .choice (extends_consume (by decide)) (.bind ih fun _ => .pure) ?_
      exact .choice (extends_consume (by decide)) ih hp

theorem extends_productOperator? : Extends productOperator? productOperator? := by
  refine .bind extends_skipBlank fun _ => .choice (extends_consume (by decide)) .pure ?_
  refine .choice (extends_consume (by decide)) .pure (.choice (extends_consume (by decide)) .pure ?_)
  refine .choice (extends_consume (by decide)) .pure (.choice (extends_peek (by decide)) .pure ?_)
  exact .choice (extends_consume (by decide)) .pure .pure

theorem extends_atTrimmedClose : Extends atTrimmedClose atTrimmedClose := by
  refine fun more text _ => .of_covers (fun more h => .rest ?_) more
  rw [h.startsWith_append (by decide), h.startsWith_append (by decide), h.startsWith_append (by decide)]
  exact .pure

theorem extends_sumStep {inner inner' : Parser Expr} {rounds rounds' : Nat}
    (hp : Extends (product inner rounds) (product inner' rounds')) (left : Expr) :
    Extends (sumStep inner rounds left) (sumStep inner' rounds' left) := by
  have operand (op : Operator) : Extends (do return some (Expr.binary op left (← product inner rounds)))
      (do return some (Expr.binary op left (← product inner' rounds'))) :=
    .bind hp fun _ => .pure
  refine .bind extends_skipBlank fun _ => .choice (extends_consume (by decide)) (operand .add) ?_
  exact .choice extends_atTrimmedClose .pure (.choice (extends_consume (by decide)) (operand .sub) .pure)

/-- Two keywords that are not both there are given back. -/
theorem extends_consumeWords {first second : String} (hf : Closeless first.toList) (hs : Closeless second.toList) :
    Extends (consumeWords first second) (consumeWords first second) := by
  intro more text hd
  refine .of_covers (fun more h => ?_) more
  intro position value last run
  have unfolded (text : List Char) (position : Position) :
      consumeWords first second { rest := text, trimNext := false, position } = (do
        if ← consumeWord first then
          if ← consumeWord second then return true
          set ({ rest := text, trimNext := false, position } : Cursor)
          return false
        else return false : Parser Bool) { rest := text, trimNext := false, position } := rfl
  rw [unfolded] at run
  obtain ⟨found, next, run', run⟩ := exists_of_bind run
  obtain ⟨s, trim, takes⟩ := extends_consumeWord hf more text hd position found next run'
  have covers := covers_of_consumeWord h hf run'
  cases found with
  | false =>
    cases run
    refine ⟨s, trim, fun c => ⟨fun position => ?_⟩⟩
    rw [unfolded]
    exact ((takes c).no .pure).run position
  | true =>
    have start : next = { rest := next.rest, trimNext := false, position := next.position } := by rw [← trim]
    obtain ⟨found, after, run', run⟩ := exists_of_bind run
    rw [start] at run'
    obtain ⟨s', trim', takes'⟩ := extends_consumeWord hs more next.rest (hd.of_suffix s) next.position found after run'
    cases found with
    | true =>
      cases run
      refine ⟨s'.trans s, trim', fun c => ⟨fun position => ?_⟩⟩
      rw [unfolded]
      exact ((takes (c.of_suffix s')).yes ((takes' c).yes .pure)).run position
    | false =>
      cases run
      refine ⟨List.suffix_rfl, rfl, fun c => ⟨fun position => ?_⟩⟩
      rw [unfolded]
      have covers' := covers_of_consumeWord covers hs run'
      refine ((takes covers).run_bind _).trans ?_ position
      refine ((takes' covers').run_bind _).trans ?_
      exact fun _ => ⟨position, rfl⟩

/-- Every part of an expression is read on from a longer text, and so is every expression. -/
theorem carries_extends : Likeness.Carries (fun _ => Extends) where
  pure _ := .pure
  exhausted _ := .fail
  bind := .bind
  skipBlank := extends_skipBlank
  peek := extends_peek (by decide)
  consume m := by
    have atomic : ∀ token ∈ possibleTokens, IsAtomic token := by decide
    exact extends_consume (atomic _ m)
  expect m := by
    have atomic : ∀ token ∈ requiredTokens, IsAtomic token := by decide
    exact extends_expect (atomic _ m)
  consumeWord m := by
    have closeless : ∀ word ∈ connectives, Closeless word.toList := by decide
    exact extends_consumeWord (closeless _ m)
  consumeWords := extends_consumeWords (by decide) (by decide)
  identifier := extends_identifier
  skipArgumentName := extends_skipArgumentName
  lookupKey := extends_lookupKey
  productOperator? := extends_productOperator?
  primary := extends_primary
  signed := extends_signed
  sumStep := extends_sumStep

theorem extends_expression {bound bound' : Nat} (h : bound ≤ bound') :
    Extends (expression bound) (expression bound') :=
  carries_extends.expression h

end Parser

end Folio.Template
