import Folio.Proofs.Template.Boundary
import Folio.Proofs.Template.Dashes
import Folio.Proofs.Template.Locality

/-! Closing delimiters in the place of one another. An expression with a blank behind it is read the same in front of a
closing delimiter with a dash as in front of one without, whatever follows: no token of it goes on in the delimiter,
whose dash is not taken for a minus, nor its percent sign for the operator of remainders. -/
namespace Folio.Template

variable {text after inside close other : List Char}

namespace Parser

variable {α β : Type}

/-! ### Reading in front of another delimiter -/

/-- A delimiter that closes an output or a tag, and the one that takes its place: with a dash or without, and with more
text behind it. -/
inductive Replaces : List Char → List Char → Prop
  | output (after : List Char) : Replaces ['}', '}'] ('}' :: '}' :: after)
  | trimmedOutput (after : List Char) : Replaces ['}', '}'] ('-' :: '}' :: '}' :: after)
  | tag (after : List Char) : Replaces ['%', '}'] ('%' :: '}' :: after)
  | trimmedTag (after : List Char) : Replaces ['%', '}'] ('-' :: '%' :: '}' :: after)

theorem replaces_of_mem_closers {close : String} (m : close ∈ closers) (dashed : Bool) (after : List Char) :
    Replaces close.toList (dash dashed ++ (close.toList ++ after)) := by
  rcases List.mem_pair.1 m with rfl | rfl
  · cases dashed with
    | false => exact .output after
    | true => exact .trimmedOutput after
  · cases dashed with
    | false => exact .tag after
    | true => exact .trimmedTag after

theorem Replaces.shuts (h : Replaces close other) : Shuts close ∧ Shuts other := by
  cases h <;> exact ⟨.intro (by decide), .intro (by decide)⟩

/-- A value is read up to a place in front of the delimiter, where the parser reads it too in front of the other
delimiter, or up to a place within the delimiter. -/
def Arrives (close other inside : List Char) (q : Parser α) (value : α) (next : Cursor) : Prop :=
  next.trimNext = false ∧ (next.rest <:+ ['}'] ∨
    ∃ left, left <:+ inside ∧ next.rest = left ++ close ∧ Takes q (inside ++ other) value (left ++ other))

theorem Arrives.of_suffix {q q' : Parser α} {left : List Char} {value : α} {next : Cursor}
    (h : Arrives close other left q value next) (s : left <:+ inside)
    (hq : ∀ last, Takes q (left ++ other) value last → Takes q' (inside ++ other) value last) :
    Arrives close other inside q' value next := by
  obtain ⟨trim, lost | ⟨left, s', e, takes⟩⟩ := h
  · exact ⟨trim, .inl lost⟩
  · exact ⟨trim, .inr ⟨left, s'.trans s, e, hq _ takes⟩⟩

/-- What the parser reads in front of the delimiter, the other one reads in front of the other delimiter. -/
def SwapsAt (close other inside : List Char) (p q : Parser α) : Prop :=
  ∀ (position : Position) (value : α) (next : Cursor),
    p { rest := inside ++ close, trimNext := false, position } = .ok (value, next) →
    Arrives close other inside q value next

/-- Both parsers go as far in front of a delimiter as in any text, and swap one delimiter for the other. -/
structure Swaps (close other : List Char) (p q : Parser α) : Prop where
  far : Extends p q
  near : ∀ inside, Spaced inside → SwapsAt close other inside p q

namespace SwapsAt

variable {p q : Parser α} {left : List Char} {value : α}

theorem of_takes (s : left <:+ inside) (hp : Takes p (inside ++ close) value (left ++ close))
    (hq : Takes q (inside ++ other) value (left ++ other)) : SwapsAt close other inside p q := by
  intro position value' next run
  obtain ⟨behind, run'⟩ := hp.run position
  rw [run'] at run
  cases run
  exact ⟨rfl, .inr ⟨left, s, rfl, hq⟩⟩

theorem pure : SwapsAt close other inside (pure value) (pure value) :=
  .of_takes List.suffix_rfl .pure .pure

theorem fail {cause : ParseError.Cause} : SwapsAt close other inside (fail cause) q :=
  nofun

theorem rest {f g : List Char → Parser α} (h : SwapsAt close other inside (f (inside ++ close)) (g (inside ++ other))) :
    SwapsAt close other inside (rest >>= f) (rest >>= g) :=
  fun position value next run => (h position value next run).of_suffix List.suffix_rfl fun _ => .rest

theorem goto {f g : Unit → Parser α} {passed passed' : List Char} (s : left <:+ inside)
    (h : SwapsAt close other left (f ()) (g ())) :
    SwapsAt close other inside (goto passed (left ++ close) >>= f) (Parser.goto passed' (left ++ other) >>= g) :=
  fun _ value next run => (h _ value next run).of_suffix s fun _ => .goto

theorem goto_fail {passed : List Char} {cause : ParseError.Cause} :
    SwapsAt close other inside (do Parser.goto passed after; Parser.fail cause) q :=
  nofun

theorem goto_lost {passed : List Char} (s : after <:+ ['}']) :
    SwapsAt close other inside (do Parser.goto passed after; return value) q := by
  intro position value next run
  cases run
  exact ⟨rfl, .inl s⟩

theorem pass {f g : Unit → Parser α} {token : String} (s : left <:+ inside)
    (h : SwapsAt close other left (f ()) (g ())) :
    SwapsAt close other inside (pass token (left ++ close) >>= f) (Parser.pass token (left ++ other) >>= g) :=
  fun _ value next run => (h _ value next run).of_suffix s fun _ => .pass

/-- From within the delimiter the second parser goes no farther than in any text. -/
theorem bind {first second : Parser β} {f g : β → Parser α} (hp : SwapsAt close other inside first second)
    (hf : ∀ value left, left <:+ inside → SwapsAt close other left (f value) (g value))
    (far : ∀ value, Extends (f value) (g value)) : SwapsAt close other inside (first >>= f) (second >>= g) := by
  intro position value last run
  obtain ⟨between, next, run, run'⟩ := exists_of_bind run
  obtain ⟨trim, place⟩ := hp position between next run
  have start : next = { rest := next.rest, trimNext := false, position := next.position } := by rw [← trim]
  rw [start] at run'
  rcases place with lost | ⟨left, s, e, takes⟩
  · have dashless : Dashless ['}'] := by decide
    obtain ⟨s, trim', -⟩ := far between [] next.rest (dashless.of_suffix lost) next.position value last run'
    exact ⟨trim', .inl (s.trans lost)⟩
  · rw [e] at run'
    exact (hf between left s next.position value last run').of_suffix s fun _ => takes.bind

/-- A parser that stops before every delimiter does so before this one. -/
theorem behind {first : Parser β} {f g : β → Parser α} (hp : StopsShortAt inside first) (h : Replaces close other)
    (hf : ∀ value left, left <:+ inside → SwapsAt close other left (f value) (g value)) :
    SwapsAt close other inside (first >>= f) (first >>= g) := by
  obtain ⟨between, left, s, takes⟩ := hp
  intro position value last run
  obtain ⟨behind, run'⟩ := (takes close h.shuts.1).run_bind f position
  rw [run'] at run
  exact (hf between left s behind value last run).of_suffix s fun _ => (takes other h.shuts.2).bind

theorem ite {c : Prop} [Decidable c] {p' q' : Parser α} (hp : SwapsAt close other inside p p')
    (hq : SwapsAt close other inside q q') :
    SwapsAt close other inside (if c then p else q) (if c then p' else q') := by
  split
  · exact hp
  · exact hq

end SwapsAt

theorem Swaps.bind {first second : Parser β} {f g : β → Parser α} (hp : Swaps close other first second)
    (hf : ∀ value, Swaps close other (f value) (g value)) : Swaps close other (first >>= f) (second >>= g) where
  far := .bind hp.far fun value => (hf value).far
  near inside hx := .bind (hp.near inside hx) (fun value left s => (hf value).near left (hx.of_suffix s))
    fun value => (hf value).far

theorem SwapsAt.choice {test : Parser Bool} {p p' q q' : Parser α} (hx : Spaced inside)
    (ht : SwapsAt close other inside test test) (hp : Swaps close other p p') (hq : Swaps close other q q') :
    SwapsAt close other inside (do if ← test then p else q) (do if ← test then p' else q') :=
  .bind ht (fun _ left s => .ite (hp.near left (hx.of_suffix s)) (hq.near left (hx.of_suffix s)))
    fun _ => .ite hp.far hq.far

/-- A test that takes nothing and finds the same. -/
theorem SwapsAt.look {test : Parser Bool} {found : Bool} {p p' q q' : Parser α}
    (ht : ∀ delimiter, Takes test (inside ++ delimiter) found (inside ++ delimiter))
    (hp : SwapsAt close other inside p p') (hq : SwapsAt close other inside q q') :
    SwapsAt close other inside (do if ← test then p else q) (do if ← test then p' else q') := by
  intro position value next run
  obtain ⟨behind, run'⟩ := (ht close).run_bind (fun found => if found then p else q) position
  rw [run'] at run
  have both : SwapsAt close other inside (if found then p else q) (if found then p' else q') := .ite hp hq
  exact (both behind value next run).of_suffix List.suffix_rfl fun _ takes => (ht other).bind takes

theorem Swaps.pure {value : α} : Swaps close other (pure value) (pure value) :=
  ⟨.pure, fun _ _ => .pure⟩

theorem Swaps.choice {test : Parser Bool} {p p' q q' : Parser α} (ht : Swaps close other test test)
    (hp : Swaps close other p p') (hq : Swaps close other q q') :
    Swaps close other (do if ← test then p else q) (do if ← test then p' else q') where
  far := .choice ht.far hp.far hq.far
  near inside hx := .choice hx (ht.near inside hx) hp hq

section Tokens

variable (h : Replaces close other)
include h

/-- What ends in front of the delimiter leaves it as it is, and what ends behind its first character leaves a brace at
most. -/
theorem Replaces.exists_or_lost {read : List Char} (split : inside ++ close = read ++ after) :
    (∃ left, inside = read ++ left ∧ after = left ++ close) ∨ after <:+ ['}'] := by
  rcases List.append_eq_append_iff.1 split with ⟨taken, rfl, e⟩ | within
  · cases taken with
    | nil => exact .inl ⟨[], by simp, e.symm⟩
    | cons c taken =>
      have brace : ['}'] = taken ++ after := by
        cases h <;> exact (List.cons.inj e).2
      exact .inr ⟨taken, brace.symm⟩
  · exact .inl within

omit h in
theorem StopsShortAt.swapsAt {p : Parser α} (hp : StopsShortAt inside p) (h : Replaces close other) :
    SwapsAt close other inside p p := by
  obtain ⟨value, left, s, takes⟩ := hp
  exact .of_takes s (takes close h.shuts.1) (takes other h.shuts.2)

theorem swaps_skipBlank : Swaps close other skipBlank skipBlank :=
  ⟨extends_skipBlank, fun inside hx => (stopsShort_skipBlank inside hx).swapsAt h⟩

/-- A brace may be the first of a delimiter, and then it is taken off that. -/
theorem swapsAt_consume_brace (hx : Spaced inside) : SwapsAt close other inside (consume "\x7d") (consume "\x7d") := by
  by_cases ne : inside = []
  · subst ne
    have lost : SwapsAt ['}', '}'] other [] (consume "\x7d") (consume "\x7d") := by
      intro position value next run
      cases run
      exact ⟨rfl, .inl List.suffix_rfl⟩
    cases h with
    | output => exact lost
    | trimmedOutput => exact lost
    | tag => exact .of_takes List.suffix_rfl (takes_consume_ne rfl nofun) (takes_consume_ne rfl nofun)
    | trimmedTag => exact .of_takes List.suffix_rfl (takes_consume_ne rfl nofun) (takes_consume_ne rfl nofun)
  · exact (stopsShortAt_consume hx (by decide) (absurd · ne)).swapsAt h

theorem swaps_consume {token : String} (ht : IsInner token ∨ token = "\x7d") (atomic : IsAtomic token) :
    Swaps close other (consume token) (consume token) := by
  refine ⟨extends_consume atomic, fun inside hx => ?_⟩
  obtain inner | rfl := ht
  · exact (stopsShort_consume inner inside hx).swapsAt h
  · exact swapsAt_consume_brace h hx

theorem swaps_expect {token : String} (ht : IsInner token ∨ token = "\x7d") (atomic : IsAtomic token) :
    Swaps close other (expect token) (expect token) := by
  refine .choice (swaps_consume h ht atomic) .pure ⟨.choice extends_atEnd .fail (extends_failExpected token _), ?_⟩
  intro inside _ position value next run
  obtain ⟨_ | _, _, -, run⟩ := exists_of_bind run
  · cases run
  · cases run

theorem swaps_identifier : Swaps close other identifier identifier := by
  refine ⟨extends_identifier, fun inside hx => ?_⟩
  refine .behind (stopsShort_skipBlank inside hx) h fun _ left s => .rest ?_
  rw [h.shuts.1.identifier?_append, h.shuts.2.identifier?_append]
  cases e : identifier? left with
  | some found => exact .goto ⟨_, identifier?_append e⟩ .pure
  | none =>
    refine .rest ?_
    generalize left ++ close = source
    cases source with
    | nil => exact .fail
    | cons => exact .fail

/-! ### Literals -/

theorem swapsAt_stringLiteral {c : Char} (quote : Char) {text : List Char} :
    SwapsAt close other (c :: text) (stringLiteral quote) (stringLiteral quote) := by
  refine .rest ?_
  rw [List.cons_append, List.cons_append, List.drop_one, List.drop_one, List.tail_cons, List.tail_cons]
  cases e : stringBody quote (text ++ close) with
  | none => exact .goto_fail
  | some found =>
    obtain ⟨body, after⟩ := found
    obtain ⟨read, split, all⟩ := exists_of_stringBody e
    rcases h.exists_or_lost split with ⟨left, rfl, rfl⟩ | lost
    · rw [List.append_assoc read left other, all]
      exact .goto ((List.suffix_append read left).trans (List.suffix_cons c _)) .pure
    · exact .goto_lost lost

omit h in
theorem swapsAt_integer (whole : List Char) {left : List Char} (s : left <:+ inside) :
    SwapsAt close other inside (number.integer whole (left ++ close)) (number.integer whole (left ++ other)) := by
  refine .goto s ?_
  dsimp only
  split
  · exact .pure
  · exact .fail

theorem swaps_number : Swaps close other number number := by
  refine ⟨extends_number, fun inside hx => .rest ?_⟩
  rw [h.shuts.1.takeWhile_append (by decide), h.shuts.2.takeWhile_append (by decide),
    h.shuts.1.dropWhile_append (by decide), h.shuts.2.dropWhile_append (by decide)]
  have s : inside.dropWhile Char.isDigit <:+ inside := List.dropWhile_suffix _
  dsimp only
  generalize inside.dropWhile Char.isDigit = left at s
  have integer : SwapsAt close other inside _ _ := swapsAt_integer (inside.takeWhile Char.isDigit) s
  have hx := hx.of_suffix s
  cases left with
  | nil => cases h <;> exact integer
  | cons c after =>
    by_cases point : c = '.'
    · subst point
      cases after with
      | nil => exact absurd hx (not_spaced_singleton (by decide))
      | cons d after =>
        refine .ite ?_ integer
        have take {behind : List Char} (shuts : Shuts behind) :
            (d :: after ++ behind).takeWhile Char.isDigit = (d :: after).takeWhile Char.isDigit :=
          shuts.takeWhile_append (by decide)
        have drop {behind : List Char} (shuts : Shuts behind) :
            (d :: after ++ behind).dropWhile Char.isDigit = (d :: after).dropWhile Char.isDigit ++ behind :=
          shuts.dropWhile_append (by decide)
        rw [List.append_eq, List.append_eq, ← List.cons_append, ← List.cons_append, take h.shuts.1, take h.shuts.2,
          drop h.shuts.1, drop h.shuts.2]
        exact .goto ((List.dropWhile_suffix _).trans ((List.suffix_cons _ _).trans s)) .pure
    · split
      · rename_i e
        exact absurd (List.cons.inj e).1 point
      · split
        · rename_i e
          exact absurd (List.cons.inj e).1 point
        · exact integer

/-- A single equals sign is told from a double one. -/
theorem swapsAt_sign {left : List Char} {p p' : Parser α} {f f' : List Char → Parser α} (hx : Spaced left)
    (hp : SwapsAt close other inside p p')
    (hf : ∀ value, '=' :: value = left → SwapsAt close other inside (f (value ++ close)) (f' (value ++ other))) :
    SwapsAt close other inside
      (match left ++ close with
        | '=' :: '=' :: _ => p
        | '=' :: value => f value
        | _ => p)
      (match left ++ other with
        | '=' :: '=' :: _ => p'
        | '=' :: value => f' value
        | _ => p') := by
  cases left with
  | nil => cases h <;> exact hp
  | cons c left =>
    by_cases sign : c = '='
    · subst sign
      cases left with
      | nil => exact absurd hx (not_spaced_singleton (by decide))
      | cons d value =>
        by_cases double : d = '='
        · subst double
          exact hp
        · have single := hf (d :: value) rfl
          split
          · rename_i e
            exact absurd (List.cons.inj (List.cons.inj e).2).1 double
          · rename_i e
            obtain rfl := (List.cons.inj e).2
            split
            · rename_i e
              exact absurd (List.cons.inj (List.cons.inj e).2).1 double
            · rename_i e
              obtain rfl := (List.cons.inj e).2
              exact single
            · rename_i ne
              exact absurd rfl (ne _)
          · rename_i ne
            exact absurd rfl (ne _)
    · split
      · rename_i e
        exact absurd (List.cons.inj e).1 sign
      · rename_i e
        exact absurd (List.cons.inj e).1 sign
      · split
        · rename_i e
          exact absurd (List.cons.inj e).1 sign
        · rename_i e
          exact absurd (List.cons.inj e).1 sign
        · exact hp

theorem swaps_skipArgumentName : Swaps close other skipArgumentName skipArgumentName := by
  refine ⟨extends_skipArgumentName, fun inside hx => .rest ?_⟩
  rw [h.shuts.1.identifier?_append, h.shuts.2.identifier?_append]
  cases e : identifier? inside with
  | none => exact .pure
  | some found =>
    obtain ⟨name, after⟩ := found
    rw [Option.map_some, Option.map_some]
    dsimp only
    rw [h.shuts.1.dropWhile_append (by decide), h.shuts.2.dropWhile_append (by decide)]
    have s : after.dropWhile Text.isBlank <:+ inside := (List.dropWhile_suffix _).trans ⟨_, identifier?_append e⟩
    exact swapsAt_sign h (hx.of_suffix s) .pure fun value sign =>
      .goto ((List.suffix_cons '=' value).trans (sign ▸ s)) .pure

theorem swaps_lookupKey : Swaps close other lookupKey lookupKey := by
  have name : Swaps close other (do return .string (← identifier) : Parser Value) (do return .string (← identifier)) :=
    (swaps_identifier h).bind fun _ => .pure
  refine ⟨extends_lookupKey, fun inside hx => .rest ?_⟩
  cases inside with
  | cons c rest => exact .ite ((swaps_number h).near _ hx) (name.near _ hx)
  | nil =>
    cases h <;> exact nofun

/-! ### Levels -/

theorem swaps_primary {inner inner' : Parser Expr} {rounds rounds' : Nat} (hi : Swaps close other inner inner')
    (items : Swaps close other (listUntil "]" inner rounds) (listUntil "]" inner' rounds'))
    (entries : Swaps close other (listUntil "\x7d" (dictEntry inner) rounds)
      (listUntil "\x7d" (dictEntry inner') rounds')) :
    Swaps close other (primary inner rounds) (primary inner' rounds') := by
  refine ⟨extends_primary hi.far items.far entries.far, fun inside hx => ?_⟩
  refine .behind (stopsShort_skipBlank inside hx) h fun _ left s => ?_
  replace hx := hx.of_suffix s
  have bracket {c : Char} {after : List Char} (hx : Spaced (c :: after)) {p p' : Parser Expr}
      (hp : Swaps close other p p') :
      SwapsAt close other (c :: after) (do goto [c] (after ++ close); p) (do goto [c] (after ++ other); p') :=
    .goto (List.suffix_cons c after) (hp.near after (hx.of_suffix (List.suffix_cons c after)))
  refine .rest ?_
  cases left with
  | nil =>
    cases h <;> exact nofun
  | cons c after =>
    by_cases round : c = '('
    · subst round
      exact bracket hx (hi.bind fun _ => (swaps_skipBlank h).bind fun _ =>
        (swaps_expect h (by decide) (by decide)).bind fun _ => .pure)
    by_cases square : c = '['
    · subst square
      exact bracket hx (items.bind fun _ => .pure)
    by_cases curly : c = '{'
    · subst curly
      exact bracket hx (entries.bind fun _ => .pure)
    have string : SwapsAt close other (c :: after) (do return .literal (.string (← stringLiteral c)) : Parser Expr)
        (do return .literal (.string (← stringLiteral c))) :=
      .bind (swapsAt_stringLiteral h c) (fun _ _ _ => .pure) fun _ => .pure
    have number : Swaps close other (do return .literal (← number) : Parser Expr) (do return .literal (← number)) :=
      (swaps_number h).bind fun _ => .pure
    have name : Swaps close other (do return nameOrConstant (← identifier) : Parser Expr)
        (do return nameOrConstant (← identifier)) :=
      (swaps_identifier h).bind fun _ => .pure
    split
    · rename_i e
      cases e
    · rename_i e
      exact absurd (List.cons.inj e).1 round
    · rename_i e
      exact absurd (List.cons.inj e).1 square
    · rename_i e
      exact absurd (List.cons.inj e).1 curly
    · rename_i e
      obtain ⟨rfl, rfl⟩ := List.cons.inj e
      intro position value next run
      split
      · rename_i e
        cases e
      · rename_i e
        exact absurd (List.cons.inj e).1 round
      · rename_i e
        exact absurd (List.cons.inj e).1 square
      · rename_i e
        exact absurd (List.cons.inj e).1 curly
      · rename_i e
        obtain ⟨rfl, rfl⟩ := List.cons.inj e
        refine SwapsAt.ite string ?_ position value next run
        exact .ite (number.near _ hx) (.ite (name.near _ hx) .fail)

/-- In front of the delimiter itself there is no operand. -/
theorem swaps_signed {inner inner' : Parser Expr} {rounds rounds' signs signs' : Nat}
    (hp : Swaps close other (postfixed inner rounds) (postfixed inner' rounds')) (hs : signs ≤ signs') :
    Swaps close other (signed inner rounds signs) (signed inner' rounds' signs') := by
  induction signs generalizing signs' with
  | zero => exact ⟨extends_signed hp.far hs, fun _ _ => .fail⟩
  | succ signs ih =>
    cases signs' with
    | zero => exact absurd hs (Nat.not_succ_le_zero _)
    | succ signs' =>
      refine ⟨extends_signed hp.far hs, fun inside hx => ?_⟩
      refine .behind (stopsShort_skipBlank inside hx) h fun _ left s => ?_
      have hx := hx.of_suffix s
      have ih := ih (Nat.le_of_succ_le_succ hs)
      have plus : Swaps close other (consume "+") (consume "+") := swaps_consume h (by decide) (by decide)
      by_cases ne : left = []
      · subst ne
        cases h <;> exact nofun
      · have minus : StopsShortAt left (consume "-") := stopsShortAt_consume hx (by decide) (absurd · ne)
        exact .choice hx (minus.swapsAt h) (ih.bind fun _ => .pure) (.choice plus ih hp)

/-- The percent sign of a delimiter is left to it, with a dash in front of it and without. -/
theorem swaps_productOperator? : Swaps close other productOperator? productOperator? := by
  have token {token : String} (ht : IsInner token) (ha : IsAtomic token) := swaps_consume h (.inl ht) ha
  refine (swaps_skipBlank h).bind fun _ => .choice (token (by decide) (by decide)) .pure ?_
  refine .choice (token (by decide) (by decide)) .pure (.choice (token (by decide) (by decide)) .pure ?_)
  refine .choice (token (by decide) (by decide)) .pure ⟨?_, fun inside hx => ?_⟩
  · exact .choice (extends_peek (by decide)) .pure (.choice (extends_consume (by decide)) .pure .pure)
  by_cases ne : inside = []
  · subst ne
    cases h <;> exact .of_takes List.suffix_rfl ⟨fun _ => ⟨_, rfl⟩⟩ ⟨fun _ => ⟨_, rfl⟩⟩
  · have close (delimiter : List Char) : Takes (peek "%\x7d") (inside ++ delimiter) (startsWith "%\x7d" inside)
        (inside ++ delimiter) := by
      refine .rest ?_
      rw [hx.startsWith_append (by decide) (absurd · ne)]
      exact .pure
    have percent : StopsShortAt inside (consume "%") := stopsShortAt_consume hx (by decide) (absurd · ne)
    exact .look close .pure (.choice hx (percent.swapsAt h) .pure .pure)

/-- The dash of a delimiter is not taken for a minus. -/
theorem swaps_sumStep {inner inner' : Parser Expr} {rounds rounds' : Nat}
    (hp : Swaps close other (product inner rounds) (product inner' rounds')) (left : Expr) :
    Swaps close other (sumStep inner rounds left) (sumStep inner' rounds' left) := by
  have operand (op : Operator) : Swaps close other (do return some (Expr.binary op left (← product inner rounds)))
      (do return some (Expr.binary op left (← product inner' rounds'))) :=
    hp.bind fun _ => .pure
  have plus : Swaps close other (consume "+") (consume "+") := swaps_consume h (by decide) (by decide)
  refine (swaps_skipBlank h).bind fun _ => .choice plus (operand .add) ⟨?_, fun inside hx => ?_⟩
  · exact .choice extends_atTrimmedClose .pure (.choice (extends_consume (by decide)) (operand .sub).far .pure)
  by_cases ne : inside = []
  · subst ne
    cases h <;> exact .of_takes List.suffix_rfl ⟨fun _ => ⟨_, rfl⟩⟩ ⟨fun _ => ⟨_, rfl⟩⟩
  · have close (delimiter : List Char) : Takes atTrimmedClose (inside ++ delimiter)
        (startsWith "-\x7d\x7d" inside || startsWith "-%\x7d" inside || startsWith "-#\x7d" inside)
        (inside ++ delimiter) := by
      refine .rest ?_
      rw [hx.startsWith_append (by decide) (absurd · ne), hx.startsWith_append (by decide) (absurd · ne),
        hx.startsWith_append (by decide) (absurd · ne)]
      exact .pure
    have minus : StopsShortAt inside (consume "-") := stopsShortAt_consume hx (by decide) (absurd · ne)
    exact .look close .pure (.choice hx (minus.swapsAt h) (operand .sub) .pure)

/-- Every part of an expression is read the same in front of the other delimiter, and so is every expression. -/
theorem carries_swaps : Likeness.Carries (fun _ => Swaps close other) where
  pure _ := .pure
  exhausted _ := ⟨.fail, fun _ _ => .fail⟩
  bind := .bind
  skipBlank := swaps_skipBlank h
  peek := ⟨extends_peek (by decide), fun inside hx => (stopsShort_peek (by decide) inside hx).swapsAt h⟩
  consume m := by
    have inner : ∀ token ∈ possibleTokens, IsInner token ∨ token = "\x7d" := by decide
    have atomic : ∀ token ∈ possibleTokens, IsAtomic token := by decide
    exact swaps_consume h (inner _ m) (atomic _ m)
  expect m := by
    have inner : ∀ token ∈ requiredTokens, IsInner token ∨ token = "\x7d" := by decide
    have atomic : ∀ token ∈ requiredTokens, IsAtomic token := by decide
    exact swaps_expect h (inner _ m) (atomic _ m)
  consumeWord m := by
    have inner : ∀ word ∈ connectives, IsInner word := by decide
    exact ⟨carries_extends.consumeWord m, fun inside hx => (stopsShort_consumeWord (inner _ m) inside hx).swapsAt h⟩
  consumeWords :=
    ⟨carries_extends.consumeWords, fun inside hx =>
      (stopsShort_consumeWords (by decide) (by decide) inside hx).swapsAt h⟩
  identifier := swaps_identifier h
  skipArgumentName := swaps_skipArgumentName h
  lookupKey := swaps_lookupKey h
  productOperator? := swaps_productOperator? h
  primary := swaps_primary h
  signed := swaps_signed h
  sumStep := swaps_sumStep h

theorem swaps_expression {bound bound' : Nat} (hb : bound ≤ bound') :
    Swaps close other (expression bound) (expression bound') :=
  (carries_swaps h).expression hb

end Tokens

end Parser

end Folio.Template
