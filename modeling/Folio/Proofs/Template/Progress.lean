import Folio.Template.Parser.Node
import Mathlib.Data.List.Infix

/-! Progress of the parser. A parser leaves an end of the text that it is given, and where a loop goes round or a
bracket opens, a character has been taken. Hence an expression in a text shorter than its bounds on rounds and on
nesting uses up none of them. -/
namespace Folio.Template

variable {text after : List Char}

/-! ### Parts of a text -/

theorem suffix_of_isPrefixOf? {token : List Char} (h : token.isPrefixOf? text = some after) : after <:+ text :=
  ⟨token, List.isPrefixOf?_eq_some_iff_append_eq.1 h⟩

theorem length_lt_of_isPrefixOf? {token : List Char} (h : token.isPrefixOf? text = some after) (ht : token ≠ []) :
    after.length < text.length := by
  have := List.length_pos_iff.2 ht
  rw [← List.isPrefixOf?_eq_some_iff_append_eq.1 h, List.length_append]
  omega

theorem dropToken_suffix (token : String) (text : List Char) : dropToken token text <:+ text := by
  rw [dropToken]
  cases h : token.toList.isPrefixOf? text with
  | none => exact List.suffix_rfl
  | some after => exact suffix_of_isPrefixOf? h

theorem toList_append_dropToken {token : String} (h : startsWith token text = true) :
    token.toList ++ dropToken token text = text := by
  obtain ⟨after, rfl⟩ := List.isPrefixOf_iff_prefix.1 h
  rw [dropToken, List.isPrefixOf?_eq_some_iff_append_eq.2 rfl]
  rfl

/-- An identifier is cut out of the text behind its blanks. -/
theorem identifier?_append {name : String} (h : identifier? text = some (name, after)) :
    text.takeWhile Text.isBlank ++ name.toList ++ after = text := by
  rw [identifier?] at h
  split at h
  · rename_i c rest e
    split at h
    · obtain ⟨rfl, rfl⟩ := Prod.mk.inj (Option.some.inj h)
      rw [String.toList_ofList, List.append_assoc, List.cons_append, List.takeWhile_append_dropWhile, ← e,
        List.takeWhile_append_dropWhile]
    · cases h
  · cases h

theorem splitAtOpening_append (text : List Char) : (splitAtOpening text).1 ++ (splitAtOpening text).2 = text := by
  induction text with
  | nil => rfl
  | cons c rest ih =>
    rw [splitAtOpening]
    split
    · rfl
    · exact congrArg (c :: ·) ih

theorem splitAtEndRaw_append {content : List Char} (h : splitAtEndRaw text = some (content, after)) :
    content ++ after = text := by
  induction text generalizing content with
  | nil => cases h
  | cons c rest ih =>
    rw [splitAtEndRaw] at h
    split at h
    · cases h; rfl
    · obtain ⟨⟨content, rest⟩, e, h⟩ := Option.map_eq_some_iff.1 h
      cases h
      exact congrArg (c :: ·) (ih e)

theorem afterComment_suffix {trim : Bool} (h : afterComment text = some (trim, after)) : after <:+ text := by
  fun_induction afterComment text with
  | case1 rest => cases h; exact ⟨['-', '#', '}'], rfl⟩
  | case2 rest => cases h; exact ⟨['#', '}'], rfl⟩
  | case3 c rest _ _ ih => exact (ih h).trans (List.suffix_cons c rest)
  | case4 => cases h

theorem stringBody_suffix {quote : Char} {body : List Char} (h : Parser.stringBody quote text = some (body, after)) :
    after <:+ text := by
  fun_induction Parser.stringBody quote text generalizing body with
  | case1 => cases h
  | case2 rest => cases h; exact List.suffix_cons _ _
  | case3 => cases h
  | case4 _ _ _ _ =>
    rename_i ih
    obtain ⟨⟨body, rest'⟩, e, h⟩ := Option.map_eq_some_iff.1 h
    cases h
    exact (ih e).trans ((List.suffix_cons _ _).trans (List.suffix_cons _ _))
  | case5 c rest _ _ ih =>
    obtain ⟨⟨body, rest'⟩, e, h⟩ := Option.map_eq_some_iff.1 h
    cases h
    exact (ih e).trans (List.suffix_cons _ _)

theorem isPrefix_snippet (n : Nat) (text : List Char) : snippet n text <+: text := by
  fun_induction snippet n text with
  | case1 => exact List.prefix_rfl
  | case2 => exact List.nil_prefix
  | case3 n c rest ih => exact (List.prefix_cons_inj c).2 ih

theorem exists_of_parse {source : String} {ns : List Node} (h : parse source = .ok ns) :
    ∃ closing last, Parser.nodes (source.toList.length + 1) [] ⟨source.toList, false⟩ = .ok ((ns, closing), last) := by
  rw [parse] at h
  split at h
  · rename_i run
    cases h
    exact ⟨_, _, run⟩
  · cases h

namespace Parser

variable {α β : Type} {bound : Nat}

/-! ### Runs that succeed -/

theorem exists_of_bind {p : Parser β} {f : β → Parser α} {value : α} {cursor next : Cursor}
    (h : (p >>= f) cursor = .ok (value, next)) :
    ∃ first between, p cursor = .ok (first, between) ∧ f first between = .ok (value, next) := by
  change (p cursor).bind (fun (first, between) => f first between) = _ at h
  cases e : p cursor with
  | error fault => rw [e] at h; cases h
  | ok read => rw [e] at h; exact ⟨read.1, read.2, rfl, h⟩

theorem rest_of_consume {token : String} {found : Bool} {cursor next : Cursor}
    (h : consume token cursor = .ok (found, next)) :
    found = startsWith token cursor.rest ∧ next.rest = dropToken token cursor.rest ∧
      next.trimNext = cursor.trimNext := by
  obtain ⟨_, _, ahead, h⟩ := exists_of_bind h
  cases ahead
  rw [startsWith, ← List.isSome_isPrefixOf?_eq_isPrefixOf, dropToken]
  cases e : token.toList.isPrefixOf? cursor.rest with
  | none => rw [e] at h; cases h; exact ⟨rfl, rfl, rfl⟩
  | some after => rw [e] at h; cases h; exact ⟨rfl, rfl, rfl⟩

theorem rest_of_expect {token : String} {cursor next : Cursor} (h : expect token cursor = .ok ((), next)) :
    startsWith token cursor.rest = true ∧ next.rest = dropToken token cursor.rest ∧
      next.trimNext = cursor.trimNext := by
  obtain ⟨found, between, hc, h⟩ := exists_of_bind h
  obtain ⟨rfl, rest⟩ := rest_of_consume hc
  cases e : startsWith token cursor.rest with
  | true => rw [e] at h; cases h; exact ⟨rfl, rest⟩
  | false =>
    rw [e] at h
    obtain ⟨atEnd, between, -, h⟩ := exists_of_bind h
    cases atEnd with
    | true => cases h
    | false => cases h

theorem rest_of_expect_token {token : String} {cursor next : Cursor} (run : expect token cursor = .ok ((), next)) :
    token.toList ++ next.rest = cursor.rest := by
  obtain ⟨starts, rest, -⟩ := rest_of_expect run
  rw [rest, toList_append_dropToken starts]

/-! ### Advancing -/

/-- On every value a character has been taken. -/
abbrev taken : α → Prop := fun _ => True

/-- On no value a character need have been taken. -/
abbrev free : α → Prop := fun _ => False

/-- A parser has come from the text to an end of it, which is shorter if it has to be. So has a parser that failed, and
not for a bound used up. -/
def Comes (text : List Char) (must : α → Prop) : Except Fault (α × Cursor) → Prop
  | .ok (value, cursor) => cursor.rest <:+ text ∧ (must value → cursor.rest.length < text.length)
  | .error fault => fault.rest <:+ text ∧ fault.cause ≠ .exhausted

namespace Comes

variable {must : α → Prop} {outcome : Except Fault (α × Cursor)}

theorem weaken {stronger : α → Prop} (h : Comes text stronger outcome) (w : ∀ value, must value → stronger value) :
    Comes text must outcome := by
  cases outcome with
  | error fault => exact h
  | ok read => exact ⟨h.1, fun m => h.2 (w _ m)⟩

theorem of_suffix (h : Comes after must outcome) (s : after <:+ text) : Comes text must outcome := by
  cases outcome with
  | error fault => exact ⟨h.1.trans s, h.2⟩
  | ok read => exact ⟨h.1.trans s, fun m => lt_of_lt_of_le (h.2 m) s.length_le⟩

/-- Once a character is gone, nothing need be taken any more. -/
theorem of_shorter (h : Comes after free outcome) (s : after <:+ text) (l : after.length < text.length) :
    Comes text must outcome := by
  cases outcome with
  | error fault => exact ⟨h.1.trans s, h.2⟩
  | ok read => exact ⟨h.1.trans s, fun _ => lt_of_le_of_lt h.1.length_le l⟩

/-- What follows is measured from the same text, so that it may also go back to its start. -/
theorem bind {first : β → Prop} {p : Parser β} {f : β → Parser α} {cursor : Cursor}
    (hp : Comes text first (p cursor))
    (hf : ∀ value next, next.rest <:+ text → (first value → next.rest.length < text.length) →
      Comes text must (f value next)) : Comes text must ((p >>= f) cursor) := by
  change Comes text must ((p cursor).bind (fun (value, next) => f value next))
  cases e : p cursor with
  | error fault => rw [e] at hp; exact hp
  | ok read => rw [e] at hp; exact hf read.1 read.2 hp.1 hp.2

end Comes

def AdvancesAt (text : List Char) (must : α → Prop) (p : Parser α) : Prop :=
  ∀ trimNext {position : Position}, Comes text must (p { rest := text, trimNext, position })

/-- The parser advances from every text of less than `bound` characters. -/
def Advances (bound : Nat) (must : α → Prop) (p : Parser α) : Prop :=
  ∀ ⦃text : List Char⦄, text.length < bound → AdvancesAt text must p

namespace AdvancesAt

variable {must : α → Prop}

theorem pure {value : α} (h : ¬ must value) : AdvancesAt text must (pure value) :=
  fun _ => ⟨List.suffix_rfl, fun m => absurd m h⟩

theorem fail {cause : ParseError.Cause} (h : cause ≠ .exhausted) : AdvancesAt text must (fail cause) :=
  fun _ => ⟨List.suffix_rfl, h⟩

theorem rest {f : List Char → Parser α} (h : AdvancesAt text must (f text)) : AdvancesAt text must (rest >>= f) :=
  h

theorem get {f : Cursor → Parser α} (h : ∀ cursor, cursor.rest = text → AdvancesAt text must (f cursor)) :
    AdvancesAt text must (get >>= f) :=
  fun trim => h _ rfl trim

theorem goto {f : Unit → Parser α} {passed : List Char} (s : after <:+ text) (h : AdvancesAt after must (f ())) :
    AdvancesAt text must (goto passed after >>= f) :=
  fun trim => (h trim).of_suffix s

theorem goto_shorter {f : Unit → Parser α} {passed : List Char} (s : after <:+ text) (l : after.length < text.length)
    (h : AdvancesAt after free (f ())) : AdvancesAt text must (Parser.goto passed after >>= f) :=
  fun trim => (h trim).of_shorter s l

theorem pass {f : Unit → Parser α} {token : String} (s : after <:+ text) (h : AdvancesAt after must (f ())) :
    AdvancesAt text must (pass token after >>= f) :=
  fun trim => (h trim).of_suffix s

theorem pass_shorter {f : Unit → Parser α} {token : String} (s : after <:+ text) (l : after.length < text.length)
    (h : AdvancesAt after free (f ())) : AdvancesAt text must (Parser.pass token after >>= f) :=
  fun trim => (h trim).of_shorter s l

theorem ite {c : Prop} [Decidable c] {p q : Parser α} (hp : AdvancesAt text must p) (hq : AdvancesAt text must q) :
    AdvancesAt text must (if c then p else q) := by
  split
  · exact hp
  · exact hq

end AdvancesAt

namespace Advances

variable {must : α → Prop}

theorem pure {value : α} (h : ¬ must value) : Advances bound must (pure value) :=
  fun _ _ => .pure h

theorem fail {cause : ParseError.Cause} (h : cause ≠ .exhausted) : Advances bound must (fail cause) :=
  fun _ _ => .fail h

theorem zero {p : Parser α} : Advances 0 must p :=
  fun _ h => absurd h (Nat.not_lt_zero _)

theorem mono {stronger : α → Prop} {less : Nat} {p : Parser α} (h : Advances bound stronger p) (hl : less ≤ bound)
    (w : ∀ value, must value → stronger value) : Advances less must p :=
  fun _ ht trim => (h (lt_of_lt_of_le ht hl) trim).weaken w

theorem comes {p : Parser α} (h : Advances bound must p) (cursor : Cursor) (hc : cursor.rest.length < bound) :
    Comes cursor.rest must (p cursor) :=
  h hc cursor.trimNext

/-- On shorter texts, where nothing need be taken. -/
theorem lower {first : α → Prop} {p : Parser α} (h : Advances (bound + 1) first p) : Advances bound free p :=
  h.mono (Nat.le_succ bound) fun _ => False.elim

/-- What follows a value on which a character is gone reads a shorter text and need not take anything. -/
theorem bind {first : β → Prop} {p : Parser β} {f : β → Parser α} (hp : Advances bound first p)
    (hf : ∀ value, first value → Advances (bound - 1) free (f value))
    (hg : ∀ value, ¬ first value → Advances bound must (f value)) : Advances bound must (p >>= f) := by
  intro text ht trim
  refine (hp ht trim).bind fun value next s l => ?_
  by_cases t : first value
  · have := Nat.lt_of_lt_of_le (l t) (Nat.le_sub_one_of_lt ht)
    exact (hf value t this next.trimNext).of_shorter s (l t)
  · exact (hg value t (Nat.lt_of_le_of_lt s.length_le ht) next.trimNext).of_suffix s

theorem seq {first : β → Prop} {p : Parser β} {f : β → Parser α} (hp : Advances bound first p)
    (hf : ∀ value, Advances bound must (f value)) : Advances bound must (p >>= f) :=
  bind (hp.mono le_rfl (fun _ => False.elim)) (fun _ => False.elim) (fun value _ => hf value)

theorem behind {p : Parser β} {f : β → Parser α} (hp : Advances bound taken p)
    (hf : ∀ value, Advances (bound - 1) free (f value)) : Advances bound must (p >>= f) :=
  bind hp (fun value _ => hf value) (fun _ h => absurd trivial h)

theorem ite {c : Prop} [Decidable c] {p q : Parser α} (hp : Advances bound must p) (hq : Advances bound must q) :
    Advances bound must (if c then p else q) :=
  fun _ ht => .ite (hp ht) (hq ht)

/-- A branch on a token that is taken if it is there. -/
theorem choice {token : Parser Bool} {p q : Parser α} (ht : Advances bound (· = true) token)
    (hp : Advances (bound - 1) free p) (hq : Advances bound must q) :
    Advances bound must (do if ← token then p else q) := by
  refine bind ht (fun b hb => ?_) (fun b hb => ?_)
  · rw [hb]; exact hp
  · rw [Bool.eq_false_iff.2 hb]; exact hq

theorem option {p : Parser (Option β)} {f : Option β → Parser α} (hp : Advances bound (fun o => o.isSome) p)
    (hs : ∀ value, Advances (bound - 1) free (f (some value))) (hn : Advances bound must (f none)) :
    Advances bound must (p >>= f) := by
  refine bind hp (fun o ho => ?_) (fun o ho => ?_)
  · cases o with
    | none => cases ho
    | some value => exact hs value
  · cases o with
    | none => exact hn
    | some value => exact absurd rfl ho

theorem extendWhile {step : α → Parser (Option α)} (hs : ∀ value, Advances bound (fun o => o.isSome) (step value))
    {rounds : Nat} (hr : bound ≤ rounds) (value : α) : Advances bound free (extendWhile step rounds value) := by
  induction rounds generalizing bound value with
  | zero => rw [Nat.le_zero.1 hr]; exact zero
  | succ rounds ih =>
    refine option (hs value) (fun longer => ?_) (pure id)
    exact ih (fun v => (hs v).mono (Nat.sub_le _ _) (fun _ => id)) (Nat.sub_le_of_le_add hr) longer

end Advances

theorem suffix_of_advances {must : α → Prop} {p : Parser α} (h : ∀ bound, Advances bound must p) {value : α}
    {cursor next : Cursor}
    (run : p cursor = .ok (value, next)) : next.rest <:+ cursor.rest := by
  have comes := (h (cursor.rest.length + 1)).comes cursor (Nat.lt_succ_self _)
  rw [run] at comes
  exact comes.1

/-! ### Tokens -/

section Tokens

theorem advances_peek (token : String) : Advances bound free (peek token) :=
  fun _ _ _ => ⟨List.suffix_rfl, False.elim⟩

theorem advances_atEnd : Advances bound free atEnd :=
  fun _ _ _ => ⟨List.suffix_rfl, False.elim⟩

theorem advances_skipBlank : Advances bound free skipBlank :=
  fun _ _ _ => ⟨List.dropWhile_suffix _, False.elim⟩

theorem advances_consume {token : String} (ht : token.toList ≠ []) : Advances bound (· = true) (consume token) := by
  intro text _
  refine .rest ?_
  split
  · rename_i after h
    exact .pass_shorter (suffix_of_isPrefixOf? h) (length_lt_of_isPrefixOf? h ht) (.pure id)
  · exact .pure nofun

theorem advances_consumeWord {keyword : String} (ht : keyword.toList ≠ []) :
    Advances bound (· = true) (consumeWord keyword) :=
  .seq advances_skipBlank fun _ => fun _ h => .rest (.ite (advances_consume ht h) (.pure nofun))

theorem advances_failExpected (token : String) : Advances bound taken (failExpected token : Parser α) :=
  fun _ _ => .rest (.fail nofun)

theorem advances_expect {token : String} (ht : token.toList ≠ []) : Advances bound taken (expect token) := by
  refine .bind (advances_consume ht) (fun value h => ?_) (fun value h => ?_)
  · rw [h]; exact .pure id
  · rw [Bool.eq_false_iff.2 h]
    exact .seq advances_atEnd fun _ => .ite (.fail nofun) (advances_failExpected token)

theorem advances_expectWord {keyword : String} (ht : keyword.toList ≠ []) :
    Advances bound taken (expectWord keyword) := by
  refine .bind (advances_consumeWord ht) (fun value h => ?_) (fun value h => ?_)
  · rw [h]; exact .pure id
  · rw [Bool.eq_false_iff.2 h]; exact advances_failExpected keyword

theorem identifier?_length {name : String} (h : identifier? text = some (name, after)) :
    after.length < text.length := by
  have cut := congrArg List.length (identifier?_append h)
  have : name.toList ≠ [] := by
    intro e
    rw [identifier?] at h
    split at h
    · split at h
      · obtain ⟨rfl, -⟩ := Prod.mk.inj (Option.some.inj h)
        rw [String.toList_ofList] at e
        cases e
      · cases h
    · cases h
  have := List.length_pos_iff.2 this
  simp only [List.length_append] at cut
  omega

theorem advances_identifier : Advances bound taken identifier := by
  refine .seq advances_skipBlank fun _ => fun text _ => .rest ?_
  split
  · rename_i name after h
    exact .goto_shorter ⟨_, identifier?_append h⟩ (identifier?_length h) (.pure id)
  · refine .rest ?_
    split
    · exact .fail nofun
    · exact .fail nofun

theorem advances_trimNext (trimNext : Bool) :
    Advances bound free (modify (fun cursor => { cursor with trimNext }) : Parser Unit) :=
  fun _ _ _ => ⟨List.suffix_rfl, False.elim⟩

theorem advances_expectClose {close : String} (hc : close.toList ≠ []) : Advances bound free (expectClose close) := by
  have plain : Advances bound free (expect close) := (advances_expect hc).mono le_rfl fun _ => False.elim
  refine .seq advances_skipBlank fun _ => fun text ht => .rest ?_
  split
  · rename_i rest
    refine .ite ?_ (plain ht)
    have s : dropToken close rest <:+ '-' :: rest := (dropToken_suffix close rest).trans (List.suffix_cons _ _)
    exact .pass s (advances_trimNext true (Nat.lt_of_le_of_lt s.length_le ht))
  · exact plain ht

end Tokens

/-! ### Lists -/

section Lists

variable {item : Parser α} (hi : Advances bound free item) {rounds : Nat} (hr : bound ≤ rounds)
include hi hr

theorem advances_listUntil {close : String} (hc : close.toList ≠ []) :
    Advances bound free (listUntil close item rounds) := by
  induction rounds generalizing bound with
  | zero => rw [Nat.le_zero.1 hr]; exact .zero
  | succ rounds ih =>
    refine .seq advances_skipBlank fun _ => .choice (advances_consume hc) (.pure id) ?_
    refine .seq hi fun first => .seq advances_skipBlank fun _ => .choice (advances_consume (by decide)) ?_ ?_
    · have more := ih (hi.mono (Nat.sub_le _ _) (fun _ => id)) (Nat.sub_le_of_le_add hr)
      exact .seq more fun _ => .pure id
    · exact .seq (advances_expect hc) fun _ => .pure id

theorem advances_listOf : Advances bound free (listOf item rounds) := by
  induction rounds generalizing bound with
  | zero => rw [Nat.le_zero.1 hr]; exact .zero
  | succ rounds ih =>
    refine .seq hi fun first => .seq advances_skipBlank fun _ => .choice (advances_consume (by decide)) ?_ (.pure id)
    have more := ih (hi.mono (Nat.sub_le _ _) (fun _ => id)) (Nat.sub_le_of_le_add hr)
    exact .seq more fun _ => .pure id

end Lists

/-! ### Literals -/

theorem advances_stringLiteral (quote : Char) : Advances bound free (stringLiteral quote) := by
  intro text _
  refine .rest ?_
  split
  · rename_i body after h
    exact .goto ((stringBody_suffix h).trans (List.drop_suffix 1 text)) (.pure id)
  · exact .goto List.nil_suffix (.fail nofun)

theorem advancesAt_integer (whole : List Char) (s : after <:+ text) :
    AdvancesAt text free (number.integer whole after) := by
  refine .goto s ?_
  dsimp only
  split
  · exact .pure id
  · exact .fail nofun

theorem advances_number : Advances bound free number := by
  intro text _
  refine .rest ?_
  have s : text.dropWhile Char.isDigit <:+ text := List.dropWhile_suffix _
  dsimp only
  split
  · rename_i d after h
    rw [h] at s
    refine .ite ?_ (advancesAt_integer _ s)
    have s := ((List.dropWhile_suffix Char.isDigit).trans (List.suffix_cons '.' (d :: after))).trans s
    exact .goto s (.pure id)
  · exact advancesAt_integer _ s

theorem advances_skipArgumentName : Advances bound free skipArgumentName := by
  intro text _
  refine .rest ?_
  split
  · rename_i name after h
    have s : after.dropWhile Text.isBlank <:+ text := (List.dropWhile_suffix _).trans ⟨_, identifier?_append h⟩
    split
    · exact .pure id
    · rename_i value _ e
      exact fun _ => ⟨(List.suffix_cons '=' value).trans (e ▸ s), False.elim⟩
    · exact .pure id
  · exact .pure id

/-! ### Levels -/

section Levels

variable {n rounds : Nat} {inner : Parser Expr} (hi : Advances n free inner) (hr : n < rounds)
include hi

theorem advances_dictEntry : Advances n free (dictEntry inner) :=
  .seq hi fun _ => .seq advances_skipBlank fun _ => .seq (advances_expect (by decide)) fun _ =>
    .seq hi fun _ => .pure id

include hr

theorem advances_callArguments : Advances (n + 1) taken (callArguments inner rounds) :=
  .behind (advances_expect (by decide)) fun _ =>
    advances_listUntil (.seq advances_skipArgumentName fun _ => hi) hr.le (by decide)

theorem advances_optionalArguments : Advances (n + 1) free (optionalArguments inner rounds) :=
  .seq advances_skipBlank fun _ => .seq (advances_peek _) fun _ =>
    .ite ((advances_callArguments hi hr).mono le_rfl fun _ => False.elim) (.pure id)

theorem advances_primary : Advances (n + 1) free (primary inner rounds) := by
  have bracket {c : Char} {after : List Char} {p : Parser Expr} (hp : Advances n free p)
      (h : (c :: after).length < n + 1) : AdvancesAt (c :: after) free (do goto [c] after; p) :=
    .goto (List.suffix_cons c after) (hp (Nat.lt_of_succ_lt_succ h))
  refine .seq advances_skipBlank fun _ => fun text ht => .rest ?_
  split
  · exact .fail nofun
  · exact bracket (.seq hi fun _ => .seq advances_skipBlank fun _ =>
      .seq (advances_expect (by decide)) fun _ => .pure id) ht
  · exact bracket (.seq (advances_listUntil hi hr.le (by decide)) fun _ => .pure id) ht
  · exact bracket (.seq (advances_listUntil (advances_dictEntry hi) hr.le (by decide)) fun _ => .pure id) ht
  · rename_i c after _ _ _
    have string : Advances (n + 1) free (do return .literal (.string (← stringLiteral c)) : Parser Expr) :=
      .seq (advances_stringLiteral c) fun _ => .pure id
    have number : Advances (n + 1) free (do return .literal (← number) : Parser Expr) :=
      .seq advances_number fun _ => .pure id
    have name : Advances (n + 1) free (do return nameOrConstant (← identifier) : Parser Expr) :=
      .seq advances_identifier fun _ => .pure id
    exact .ite (string ht) (.ite (number ht) (.ite (name ht) (.fail nofun)))

theorem advances_test (target : Expr) : Advances (n + 1) free (test inner rounds target) := by
  refine .seq (advances_consumeWord (by decide)) fun negated => .seq advances_identifier fun name => ?_
  split
  · exact .pure id
  · split
    · exact .pure id
    · exact .seq (advances_optionalArguments hi hr) fun _ => .pure id

omit hi hr in
theorem advances_lookupKey : Advances bound free lookupKey := by
  have name : Advances bound free (do return .string (← identifier) : Parser Value) :=
    .seq advances_identifier fun _ => .pure id
  intro text ht
  refine .rest ?_
  split
  · exact .ite (advances_number ht) (name ht)
  · exact name ht

theorem advances_postfixStep (e : Expr) : Advances (n + 1) (fun o => o.isSome) (postfixStep inner rounds e) := by
  refine .seq advances_skipBlank fun _ => .choice (advances_consume (by decide)) ?lookup ?_
  case lookup => exact .seq advances_lookupKey fun _ => .pure id
  refine .choice (advances_consume (by decide)) ?bracket (.seq (advances_peek _) fun _ => .ite ?call ?_)
  case bracket =>
    exact .seq hi fun _ => .seq advances_skipBlank fun _ => .seq (advances_expect (by decide)) fun _ => .pure id
  case call => exact .behind (advances_callArguments hi hr) fun _ => .pure id
  refine .choice (advances_consume (by decide)) ?filter (.choice (advances_consumeWord (by decide)) ?test (.pure nofun))
  case filter =>
    exact .seq advances_identifier fun _ => .seq (advances_optionalArguments hi hr).lower fun _ => .pure id
  case test => exact .seq (advances_test hi hr e).lower fun _ => .pure id

theorem advances_postfixed : Advances (n + 1) free (postfixed inner rounds) :=
  .seq (advances_primary hi hr) fun e => .extendWhile (advances_postfixStep hi hr) hr e

/-- The signs before an operand are taken one by one. -/
theorem advances_signed {less : Nat} (hl : less ≤ n + 1) {signs : Nat} (hs : less ≤ signs) :
    Advances less free (signed inner rounds signs) := by
  induction signs generalizing less with
  | zero => rw [Nat.le_zero.1 hs]; exact .zero
  | succ signs ih =>
    have behind : Advances (less - 1) free (signed inner rounds signs) :=
      ih (le_trans (Nat.sub_le _ _) hl) (Nat.sub_le_of_le_add hs)
    refine .seq advances_skipBlank fun _ => .choice (advances_consume (by decide)) ?_ ?_
    · exact .seq behind fun _ => .pure id
    · exact .choice (advances_consume (by decide)) behind ((advances_postfixed hi hr).mono hl fun _ => id)

omit hi hr in
theorem advances_productOperator? : Advances bound (fun o => o.isSome) productOperator? := by
  refine .seq advances_skipBlank fun _ => ?_
  refine .choice (advances_consume (by decide)) (.pure id) (.choice (advances_consume (by decide)) (.pure id) ?_)
  refine .choice (advances_consume (by decide)) (.pure id) (.choice (advances_consume (by decide)) (.pure id) ?_)
  refine .seq (advances_peek _) fun _ => .ite (.pure nofun) ?_
  exact .choice (advances_consume (by decide)) (.pure id) (.pure nofun)

theorem advances_productStep (left : Expr) :
    Advances (n + 1) (fun o => o.isSome) (productStep inner rounds left) := by
  refine .option advances_productOperator? (fun op => ?_) (.pure nofun)
  exact .seq (advances_signed hi hr (Nat.le_succ n) hr.le) fun _ => .pure id

theorem advances_product : Advances (n + 1) free (product inner rounds) :=
  .seq (advances_signed hi hr le_rfl hr) fun e => .extendWhile (advances_productStep hi hr) hr e

omit hi hr in
theorem advances_atTrimmedClose : Advances bound free atTrimmedClose :=
  fun _ _ => .rest (.pure id)

theorem advances_sumStep (left : Expr) : Advances (n + 1) (fun o => o.isSome) (sumStep inner rounds left) := by
  have operand (op : Operator) : Advances n free (do
      return some (Expr.binary op left (← product inner rounds))) :=
    .seq (advances_product hi hr).lower fun _ => .pure id
  refine .seq advances_skipBlank fun _ => .choice (advances_consume (by decide)) (operand .add) ?_
  refine .seq advances_atTrimmedClose fun _ => .ite (.pure nofun) ?_
  exact .choice (advances_consume (by decide)) (operand .sub) (.pure nofun)

theorem advances_sum : Advances (n + 1) free (sum inner rounds) :=
  .seq (advances_product hi hr) fun e => .extendWhile (advances_sumStep hi hr) hr e

theorem advances_joinStep (left : Expr) : Advances (n + 1) (fun o => o.isSome) (joinStep inner rounds left) := by
  refine .seq advances_skipBlank fun _ => .choice (advances_consume (by decide)) ?_ (.pure nofun)
  exact .seq (advances_sum hi hr).lower fun _ => .pure id

theorem advances_join : Advances (n + 1) free (join inner rounds) :=
  .seq (advances_sum hi hr) fun e => .extendWhile (advances_joinStep hi hr) hr e

omit hi hr in
/-- Two keywords that are not both there are given back. -/
theorem advances_consumeWords {first second : String} (hf : first.toList ≠ []) (hs : second.toList ≠ []) :
    Advances bound (· = true) (consumeWords first second) := by
  intro text ht trimNext position
  have start : consumeWords first second { rest := text, trimNext, position } = (do
      if ← consumeWord first then
        if ← consumeWord second then return true
        set ({ rest := text, trimNext, position } : Cursor)
        return false
      else return false : Parser Bool) { rest := text, trimNext, position } := rfl
  rw [start]
  refine (advances_consumeWord hf ht trimNext).bind fun found next s _ => ?_
  cases found with
  | false => exact ⟨s, nofun⟩
  | true =>
    have two := (advances_consumeWord hs).comes next (Nat.lt_of_le_of_lt s.length_le ht)
    refine (two.of_suffix s).bind fun found _ s l => ?_
    cases found with
    | false => exact ⟨List.suffix_rfl, nofun⟩
    | true => exact ⟨s, l⟩

omit hi hr in
theorem advances_comparison? : Advances bound (fun o => o.isSome) comparison? := by
  refine .seq advances_skipBlank fun _ => ?_
  refine .choice (advances_consume (by decide)) (.pure id) (.choice (advances_consume (by decide)) (.pure id) ?_)
  refine .choice (advances_consume (by decide)) (.pure id) (.choice (advances_consume (by decide)) (.pure id) ?_)
  refine .choice (advances_consume (by decide)) (.pure id) (.choice (advances_consume (by decide)) (.pure id) ?_)
  refine .choice (advances_consumeWord (by decide)) (.pure id) ?_
  exact .choice (advances_consumeWords (by decide) (by decide)) (.pure id) (.pure nofun)

theorem advances_comparisonStep (left : Expr) :
    Advances (n + 1) (fun o => o.isSome) (comparisonStep inner rounds left) := by
  refine .option advances_comparison? (fun op => ?_) (.pure nofun)
  exact .seq (advances_join hi hr).lower fun _ => .pure id

theorem advances_compared : Advances (n + 1) free (compared inner rounds) :=
  .seq (advances_join hi hr) fun e => .extendWhile (advances_comparisonStep hi hr) hr e

theorem advances_negation {less : Nat} (hl : less ≤ n + 1) {words : Nat} (hw : less ≤ words) :
    Advances less free (negation inner rounds words) := by
  induction words generalizing less with
  | zero => rw [Nat.le_zero.1 hw]; exact .zero
  | succ words ih =>
    refine .choice (advances_consumeWord (by decide)) ?_ ((advances_compared hi hr).mono hl fun _ => id)
    exact .seq (ih (le_trans (Nat.sub_le _ _) hl) (Nat.sub_le_of_le_add hw)) fun _ => .pure id

theorem advances_conjunctionStep (left : Expr) :
    Advances (n + 1) (fun o => o.isSome) (conjunctionStep inner rounds left) := by
  refine .choice (advances_consumeWord (by decide)) ?_ (.pure nofun)
  exact .seq (advances_negation hi hr (Nat.le_succ n) hr.le) fun _ => .pure id

theorem advances_conjunction : Advances (n + 1) free (conjunction inner rounds) :=
  .seq (advances_negation hi hr le_rfl hr) fun e => .extendWhile (advances_conjunctionStep hi hr) hr e

theorem advances_disjunctionStep (left : Expr) :
    Advances (n + 1) (fun o => o.isSome) (disjunctionStep inner rounds left) := by
  refine .choice (advances_consumeWord (by decide)) ?_ (.pure nofun)
  exact .seq (advances_conjunction hi hr).lower fun _ => .pure id

theorem advances_disjunction : Advances (n + 1) free (disjunction inner rounds) :=
  .seq (advances_conjunction hi hr) fun e => .extendWhile (advances_disjunctionStep hi hr) hr e

theorem advances_conditional : Advances (n + 1) free (conditional inner rounds) := by
  refine .seq (advances_disjunction hi hr) fun value => .choice (advances_consumeWord (by decide)) ?_ (.pure id)
  refine .seq (advances_disjunction hi hr).lower fun condition =>
    .choice (advances_consumeWord (by decide)) ?_ (.pure id)
  exact .seq (hi.mono (Nat.sub_le _ _) fun _ => id) fun _ => .pure id

end Levels

/-- An expression in a text of less than `bound` characters needs no greater bound. -/
theorem advances_expression (bound : Nat) : Advances bound free (expression bound) := by
  induction bound with
  | zero => exact .zero
  | succ bound ih => exact advances_conditional ih (Nat.lt_succ_self bound)

end Parser

end Folio.Template
