import Folio.Proofs.Template.Totality
import Mathlib.Data.List.DropRight

/-! Positions in a source. The parser counts lines and bytes as it goes, over tokens without looking for line breaks,
and goes back to positions that it has kept. After every part of an expression the counts are those of the text
passed. -/
namespace Folio.Template

variable {source text after read : List Char}

/-! ### Positions -/

namespace Position

/-- The position behind the part of a source that is read. A line starts behind the last line break. -/
abbrev behind (read : List Char) : Position where
  offset := byteLength read
  line := 1 + read.count '\n'
  lineStart := byteLength (read.rdropWhile (· ≠ '\n'))

theorem behind_concat (read : List Char) (c : Char) : behind (read ++ [c]) = (behind read).advance c := by
  have bytes : byteLength (read ++ [c]) = byteLength read + c.utf8Size := by
    rw [byteLength_append, byteLength_cons]
    rfl
  by_cases h : c = '\n'
  · subst h
    rw [behind, bytes, List.count_append, List.count_singleton_self, List.rdropWhile_concat_neg _ _ _ (by decide),
      bytes]
    rfl
  · have none : [c].count '\n' = 0 := List.count_eq_zero.2 (by simpa using Ne.symm h)
    rw [behind, bytes, List.count_append, none, List.rdropWhile_concat_pos _ _ _ (by simpa using h), advance, if_neg h,
      if_neg h]
    rfl

theorem behind_append (read passed : List Char) : behind (read ++ passed) = passed.foldl advance (behind read) := by
  induction passed generalizing read with
  | nil => rw [List.append_nil]; rfl
  | cons c passed ih => rw [List.foldl_cons, ← behind_concat, ← ih, List.append_assoc, List.singleton_append]

/-- Without a line break only the bytes are counted. -/
theorem behind_append_of_notMem (read : List Char) (h : '\n' ∉ text) :
    behind (read ++ text) = (behind read).skip (byteLength text) := by
  induction text generalizing read with
  | nil => rw [List.append_nil]; rfl
  | cons c text ih =>
    rw [List.mem_cons, not_or] at h
    have step : behind (read ++ [c]) = (behind read).skip c.utf8Size := by
      rw [behind_concat, advance, if_neg (Ne.symm h.1), if_neg (Ne.symm h.1)]
    rw [← List.singleton_append, ← List.append_assoc, ih _ h.2, step, List.singleton_append, byteLength_cons]
    exact congrArg (fun n => (⟨n, _, _⟩ : Position)) (Nat.add_assoc _ _ _)

theorem behind_append_token (read : List Char) {token : String} (h : '\n' ∉ token.toList) :
    behind (read ++ token.toList) = (behind read).skip token.utf8ByteSize := by
  rw [behind_append_of_notMem read h, byteLength_eq, String.ofList_toList]

theorem lineStart_le (read : List Char) : (behind read).lineStart ≤ (behind read).offset := by
  obtain ⟨last, h⟩ := List.rdropWhile_prefix (· ≠ '\n') read
  have : byteLength read = _ := h ▸ byteLength_append (read.rdropWhile (· ≠ '\n')) last
  exact Nat.le.intro this.symm

/-- The line and the column tell the part that is read from a longer one. -/
theorem eq_of_prefix {longer : List Char} (h : read <+: longer) (line : (behind read).line = (behind longer).line)
    (column : (behind read).offset - (behind read).lineStart = (behind longer).offset - (behind longer).lineStart) :
    read = longer := by
  obtain ⟨more, rfl⟩ := h
  have none : '\n' ∉ more := by
    change 1 + read.count '\n' = 1 + (read ++ more).count '\n' at line
    rw [List.count_append] at line
    exact List.count_eq_zero.1 (by omega)
  rw [behind_append_of_notMem read none] at column
  change _ = (behind read).offset + byteLength more - (behind read).lineStart at column
  have empty : more = [] := by
    by_contra ne
    have := lineStart_le read
    have := byteLength_pos ne
    omega
  rw [empty, List.append_nil]

/-- The text is left of a source, and the position is the one behind what was read. -/
def Marks (position : Position) (source left : List Char) : Prop :=
  ∃ read, read ++ left = source ∧ position = behind read

end Position

theorem front_append (h : after <:+ text) : front text after ++ after = text := by
  obtain ⟨read, rfl⟩ := h
  rw [front, List.length_append, Nat.add_sub_cancel, List.take_left]

/-- Behind the blanks an identifier starts the text. -/
theorem identifier?_append_of_dropWhile {name : String}
    (h : identifier? (text.dropWhile Text.isBlank) = some (name, after)) :
    name.toList ++ after = text.dropWhile Text.isBlank := by
  have cut := identifier?_append h
  have solid := List.takeWhile_append_dropWhile (p := Text.isBlank) (l := text.dropWhile Text.isBlank)
  rw [List.dropWhile_idempotent, List.append_left_eq_self] at solid
  rwa [solid] at cut

namespace Parser

variable {α β : Type}

/-! ### Keeping track -/

/-- Over a source a parser has come to where its position says, and so has one that failed. An unknown tag is left as
it opens. -/
def Kept (source : List Char) : Except Fault (α × Cursor) → Prop
  | .ok (_, cursor) => cursor.position.Marks source cursor.rest
  | .error fault => fault.position.Marks source fault.rest ∧
    ∀ keyword, fault.cause = .unknownTag keyword → tagKeyword? fault.rest = some keyword

theorem Kept.bind {p : Parser β} {f : β → Parser α} {cursor : Cursor} (hp : Kept source (p cursor))
    (hf : ∀ value next, p cursor = .ok (value, next) → next.position.Marks source next.rest →
      Kept source (f value next)) : Kept source ((p >>= f) cursor) := by
  change Kept source ((p cursor).bind (fun (value, next) => f value next))
  cases e : p cursor with
  | error fault => rw [e] at hp; exact hp
  | ok read => rw [e] at hp; exact hf read.1 read.2 e hp

/-- From the text, of whichever source it is left, the parser keeps track of its position. -/
def TracksAt (text : List Char) (p : Parser α) : Prop :=
  ∀ source trimNext position, position.Marks source text → Kept source (p { rest := text, trimNext, position })

def Tracks (p : Parser α) : Prop :=
  ∀ text, TracksAt text p

namespace TracksAt

theorem pure {value : α} : TracksAt text (pure value) :=
  fun _ _ _ h => h

theorem fail {cause : ParseError.Cause} (h : ∀ keyword, cause ≠ .unknownTag keyword) :
    TracksAt text (fail cause : Parser α) :=
  fun _ _ _ hm => ⟨hm, fun keyword e => absurd e (h keyword)⟩

theorem rest {f : List Char → Parser α} (h : TracksAt text (f text)) : TracksAt text (rest >>= f) :=
  h

theorem goto {f : Unit → Parser α} {passed : List Char} (e : passed ++ after = text) (h : TracksAt after (f ())) :
    TracksAt text (goto passed after >>= f) := by
  rintro source trimNext position ⟨read, hs, rfl⟩
  refine h source trimNext _ ⟨read ++ passed, ?_, (Position.behind_append read passed).symm⟩
  rw [List.append_assoc, e, hs]

theorem skipBlank {f : Unit → Parser α} (h : TracksAt (text.dropWhile Text.isBlank) (f ())) :
    TracksAt text (skipBlank >>= f) :=
  fun source trimNext position => goto List.takeWhile_append_dropWhile h source trimNext position

theorem ite {c : Prop} [Decidable c] {p q : Parser α} (hp : TracksAt text p) (hq : TracksAt text q) :
    TracksAt text (if c then p else q) := by
  split
  · exact hp
  · exact hq

/-- A token is passed without a look for line breaks. -/
theorem pass {f : Unit → Parser α} {token : String} (ht : '\n' ∉ token.toList) (e : token.toList ++ after = text)
    (h : TracksAt after (f ())) : TracksAt text (pass token after >>= f) := by
  rintro source trimNext position ⟨read, hs, rfl⟩
  refine h source trimNext _ ⟨read ++ token.toList, ?_, (Position.behind_append_token read ht).symm⟩
  rw [List.append_assoc, e, hs]

end TracksAt

namespace Tracks

theorem pure {value : α} : Tracks (pure value) :=
  fun _ => .pure

theorem fail {cause : ParseError.Cause} (h : ∀ keyword, cause ≠ .unknownTag keyword) : Tracks (fail cause : Parser α) :=
  fun _ => .fail h

theorem bind {p : Parser β} {f : β → Parser α} (hp : Tracks p) (hf : ∀ value, Tracks (f value)) : Tracks (p >>= f) :=
  fun text source trimNext position h => (hp text source trimNext position h).bind fun value next _ =>
    hf value next.rest source next.trimNext next.position

theorem ite {c : Prop} [Decidable c] {p q : Parser α} (hp : Tracks p) (hq : Tracks q) :
    Tracks (if c then p else q) :=
  fun text => .ite (hp text) (hq text)

/-- A branch on what a parser has found. -/
theorem choice {test : Parser Bool} {p q : Parser α} (ht : Tracks test) (hp : Tracks p) (hq : Tracks q) :
    Tracks (do if ← test then p else q) :=
  .bind ht fun _ => .ite hp hq

theorem option {p : Parser (Option β)} {f : Option β → Parser α} (hp : Tracks p) (hs : ∀ value, Tracks (f (some value)))
    (hn : Tracks (f none)) : Tracks (p >>= f) :=
  .bind hp fun
    | some value => hs value
    | none => hn

theorem extendWhile {step : α → Parser (Option α)} (hs : ∀ value, Tracks (step value)) (rounds : Nat) (value : α) :
    Tracks (extendWhile step rounds value) := by
  induction rounds generalizing value with
  | zero => exact .fail nofun
  | succ rounds ih => exact .option (hs value) ih .pure

end Tracks

/-! ### Tokens -/

theorem tracks_peek (token : String) : Tracks (peek token) :=
  fun _ => .rest .pure

theorem tracks_atEnd : Tracks atEnd :=
  fun _ => .rest .pure

theorem tracks_skipBlank : Tracks skipBlank :=
  fun _ => .rest (.goto List.takeWhile_append_dropWhile .pure)

theorem tracks_consume {token : String} (ht : '\n' ∉ token.toList) : Tracks (consume token) := by
  refine fun text => .rest ?_
  split
  · rename_i after h
    exact .pass ht (List.isPrefixOf?_eq_some_iff_append_eq.1 h) .pure
  · exact .pure

theorem tracks_consumeWord {keyword : String} (ht : '\n' ∉ keyword.toList) : Tracks (consumeWord keyword) :=
  .bind tracks_skipBlank fun _ => fun text => .rest (.ite (tracks_consume ht text) .pure)

theorem tracks_failExpected (token : String) : Tracks (failExpected token : Parser α) :=
  fun _ => .rest (.fail nofun)

theorem tracks_expect {token : String} (ht : '\n' ∉ token.toList) : Tracks (expect token) :=
  .choice (tracks_consume ht) .pure (.choice tracks_atEnd (.fail nofun) (tracks_failExpected token))

theorem tracks_expectWord {keyword : String} (ht : '\n' ∉ keyword.toList) : Tracks (expectWord keyword) :=
  .choice (tracks_consumeWord ht) .pure (tracks_failExpected keyword)

theorem tracks_identifier : Tracks identifier := by
  refine fun text => .skipBlank (.rest ?_)
  split
  · rename_i name after h
    exact .goto (identifier?_append_of_dropWhile h) .pure
  · refine .rest ?_
    split
    · exact .fail nofun
    · exact .fail nofun

theorem tracks_trimNext (trimNext : Bool) :
    Tracks (modify (fun cursor => { cursor with trimNext }) : Parser Unit) :=
  fun _ _ _ _ h => h

theorem tracks_expectClose {close : String} (hc : '\n' ∉ close.toList) : Tracks (expectClose close) := by
  refine .bind tracks_skipBlank fun _ => fun text => .rest ?_
  split
  · rename_i after
    split
    · rename_i h
      refine .pass ?_ ?_ (tracks_trimNext true _)
      · rw [String.toList_append, List.mem_append, not_or]
        exact ⟨by decide, hc⟩
      · rw [String.toList_append, List.append_assoc, toList_append_dropToken h]
        rfl
    · exact tracks_expect hc _
  · exact tracks_expect hc _

/-! ### Lists -/

section Lists

variable {item : Parser α} (hi : Tracks item) (rounds : Nat)
include hi

theorem tracks_listUntil {close : String} (hc : '\n' ∉ close.toList) : Tracks (listUntil close item rounds) := by
  induction rounds with
  | zero => exact .fail nofun
  | succ rounds ih =>
    refine .bind tracks_skipBlank fun _ => .choice (tracks_consume hc) .pure ?_
    refine .bind hi fun first => .bind tracks_skipBlank fun _ => .choice (tracks_consume (by decide)) ?_ ?_
    · exact .bind ih fun _ => .pure
    · exact .bind (tracks_expect hc) fun _ => .pure

theorem tracks_listOf : Tracks (listOf item rounds) := by
  induction rounds with
  | zero => exact .fail nofun
  | succ rounds ih =>
    refine .bind hi fun first => .bind tracks_skipBlank fun _ => .choice (tracks_consume (by decide)) ?_ .pure
    exact .bind ih fun _ => .pure

end Lists

/-! ### Literals -/

theorem tracks_stringLiteral (quote : Char) : Tracks (stringLiteral quote) := by
  refine fun text => .rest ?_
  split
  · rename_i body after h
    exact .goto (front_append ((stringBody_suffix h).trans (List.drop_suffix 1 text))) .pure
  · exact .goto (List.append_nil text) (.fail nofun)

theorem tracksAt_integer {whole : List Char} (h : whole ++ after = text) :
    TracksAt text (number.integer whole after) := by
  refine .goto h ?_
  dsimp only
  split
  · exact .pure
  · exact .fail nofun

theorem tracks_number : Tracks number := by
  refine fun text => .rest ?_
  have whole : text.takeWhile Char.isDigit ++ text.dropWhile Char.isDigit = text := List.takeWhile_append_dropWhile
  dsimp only
  split
  · rename_i d after h
    rw [h] at whole
    refine .ite (.goto ?_ .pure) (tracksAt_integer whole)
    rw [List.append_assoc, List.cons_append, List.takeWhile_append_dropWhile, whole]
  · exact tracksAt_integer whole

theorem tracks_skipArgumentName : Tracks skipArgumentName := by
  refine fun text => .rest ?_
  split
  · rename_i name after h
    have s : after.dropWhile Text.isBlank <:+ text := (List.dropWhile_suffix _).trans ⟨_, identifier?_append h⟩
    split
    · exact .pure
    · rename_i value _ e
      exact .goto (front_append ((List.suffix_cons '=' value).trans (e ▸ s))) .pure
    · exact .pure
  · exact .pure

/-! ### Levels -/

section Levels

variable {inner : Parser Expr} (hi : Tracks inner) (rounds : Nat)
include hi

theorem tracks_dictEntry : Tracks (dictEntry inner) :=
  .bind hi fun _ => .bind tracks_skipBlank fun _ => .bind (tracks_expect (by decide)) fun _ => .bind hi fun _ => .pure

theorem tracks_callArguments : Tracks (callArguments inner rounds) :=
  .bind (tracks_expect (by decide)) fun _ =>
    tracks_listUntil (.bind tracks_skipArgumentName fun _ => hi) rounds (by decide)

theorem tracks_optionalArguments : Tracks (optionalArguments inner rounds) :=
  .bind tracks_skipBlank fun _ => .choice (tracks_peek _) (tracks_callArguments hi rounds) .pure

theorem tracks_primary : Tracks (primary inner rounds) := by
  have bracket {c : Char} {after : List Char} {p : Parser Expr} (hp : Tracks p) :
      TracksAt (c :: after) (do goto [c] after; p) :=
    .goto rfl (hp after)
  refine .bind tracks_skipBlank fun _ => fun text => .rest ?_
  split
  · exact .fail nofun
  · exact bracket (.bind hi fun _ => .bind tracks_skipBlank fun _ => .bind (tracks_expect (by decide)) fun _ => .pure)
  · exact bracket (.bind (tracks_listUntil hi rounds (by decide)) fun _ => .pure)
  · exact bracket (.bind (tracks_listUntil (tracks_dictEntry hi) rounds (by decide)) fun _ => .pure)
  · rename_i c after _ _ _
    have string : Tracks (do return .literal (.string (← stringLiteral c)) : Parser Expr) :=
      .bind (tracks_stringLiteral c) fun _ => .pure
    have number : Tracks (do return .literal (← number) : Parser Expr) := .bind tracks_number fun _ => .pure
    have name : Tracks (do return nameOrConstant (← identifier) : Parser Expr) :=
      .bind tracks_identifier fun _ => .pure
    exact .ite (string _) (.ite (number _) (.ite (name _) (.fail nofun)))

theorem tracks_test (target : Expr) : Tracks (test inner rounds target) := by
  refine .bind (tracks_consumeWord (by decide)) fun negated => .bind tracks_identifier fun name => ?_
  exact .ite .pure (.ite .pure (.bind (tracks_optionalArguments hi rounds) fun _ => .pure))

omit hi in
theorem tracks_lookupKey : Tracks lookupKey := by
  have name : Tracks (do return .string (← identifier) : Parser Value) := .bind tracks_identifier fun _ => .pure
  refine fun text => .rest ?_
  split
  · exact .ite (tracks_number _) (name _)
  · exact name _

theorem tracks_postfixStep (e : Expr) : Tracks (postfixStep inner rounds e) := by
  refine .bind tracks_skipBlank fun _ => .choice (tracks_consume (by decide)) ?lookup ?_
  case lookup => exact .bind tracks_lookupKey fun _ => .pure
  refine .choice (tracks_consume (by decide)) ?bracket (.choice (tracks_peek _) ?call ?_)
  case bracket =>
    exact .bind hi fun _ => .bind tracks_skipBlank fun _ => .bind (tracks_expect (by decide)) fun _ => .pure
  case call => exact .bind (tracks_callArguments hi rounds) fun _ => .pure
  refine .choice (tracks_consume (by decide)) ?filter (.choice (tracks_consumeWord (by decide)) ?test .pure)
  case filter => exact .bind tracks_identifier fun _ => .bind (tracks_optionalArguments hi rounds) fun _ => .pure
  case test => exact .bind (tracks_test hi rounds e) fun _ => .pure

theorem tracks_postfixed : Tracks (postfixed inner rounds) :=
  .bind (tracks_primary hi rounds) (.extendWhile (tracks_postfixStep hi rounds) rounds)

theorem tracks_signed (signs : Nat) : Tracks (signed inner rounds signs) := by
  induction signs with
  | zero => exact .fail nofun
  | succ signs ih =>
    refine .bind tracks_skipBlank fun _ => .choice (tracks_consume (by decide)) (.bind ih fun _ => .pure) ?_
    exact .choice (tracks_consume (by decide)) ih (tracks_postfixed hi rounds)

omit hi in
theorem tracks_productOperator? : Tracks productOperator? := by
  refine .bind tracks_skipBlank fun _ => .choice (tracks_consume (by decide)) .pure ?_
  refine .choice (tracks_consume (by decide)) .pure (.choice (tracks_consume (by decide)) .pure ?_)
  refine .choice (tracks_consume (by decide)) .pure (.choice (tracks_peek _) .pure ?_)
  exact .choice (tracks_consume (by decide)) .pure .pure

theorem tracks_productStep (left : Expr) : Tracks (productStep inner rounds left) :=
  .option tracks_productOperator? (fun _ => .bind (tracks_signed hi rounds rounds) fun _ => .pure) .pure

theorem tracks_product : Tracks (product inner rounds) :=
  .bind (tracks_signed hi rounds rounds) (.extendWhile (tracks_productStep hi rounds) rounds)

omit hi in
theorem tracks_atTrimmedClose : Tracks atTrimmedClose :=
  fun _ => .rest .pure

theorem tracks_sumStep (left : Expr) : Tracks (sumStep inner rounds left) := by
  have operand (op : Operator) : Tracks (do return some (Expr.binary op left (← product inner rounds))) :=
    .bind (tracks_product hi rounds) fun _ => .pure
  refine .bind tracks_skipBlank fun _ => .choice (tracks_consume (by decide)) (operand .add) ?_
  exact .choice tracks_atTrimmedClose .pure (.choice (tracks_consume (by decide)) (operand .sub) .pure)

theorem tracks_sum : Tracks (sum inner rounds) :=
  .bind (tracks_product hi rounds) (.extendWhile (tracks_sumStep hi rounds) rounds)

theorem tracks_joinStep (left : Expr) : Tracks (joinStep inner rounds left) := by
  refine .bind tracks_skipBlank fun _ => .choice (tracks_consume (by decide)) ?_ .pure
  exact .bind (tracks_sum hi rounds) fun _ => .pure

theorem tracks_join : Tracks (join inner rounds) :=
  .bind (tracks_sum hi rounds) (.extendWhile (tracks_joinStep hi rounds) rounds)

omit hi in
/-- Two keywords that are not both there are given back, with the position in front of them. -/
theorem tracks_consumeWords {first second : String} (hf : '\n' ∉ first.toList) (hs : '\n' ∉ second.toList) :
    Tracks (consumeWords first second) := by
  intro text source trimNext position start
  have unfolded : consumeWords first second { rest := text, trimNext, position } = (do
      if ← consumeWord first then
        if ← consumeWord second then return true
        set ({ rest := text, trimNext, position } : Cursor)
        return false
      else return false : Parser Bool) { rest := text, trimNext, position } := rfl
  rw [unfolded]
  refine (tracks_consumeWord hf text source trimNext position start).bind fun found next _ h => ?_
  cases found with
  | false => exact h
  | true =>
    refine (tracks_consumeWord hs next.rest source next.trimNext next.position h).bind fun found _ _ h => ?_
    cases found with
    | false => exact start
    | true => exact h

omit hi in
theorem tracks_comparison? : Tracks comparison? := by
  refine .bind tracks_skipBlank fun _ => .choice (tracks_consume (by decide)) .pure ?_
  refine .choice (tracks_consume (by decide)) .pure (.choice (tracks_consume (by decide)) .pure ?_)
  refine .choice (tracks_consume (by decide)) .pure (.choice (tracks_consume (by decide)) .pure ?_)
  refine .choice (tracks_consume (by decide)) .pure (.choice (tracks_consumeWord (by decide)) .pure ?_)
  exact .choice (tracks_consumeWords (by decide) (by decide)) .pure .pure

theorem tracks_comparisonStep (left : Expr) : Tracks (comparisonStep inner rounds left) :=
  .option tracks_comparison? (fun _ => .bind (tracks_join hi rounds) fun _ => .pure) .pure

theorem tracks_compared : Tracks (compared inner rounds) :=
  .bind (tracks_join hi rounds) (.extendWhile (tracks_comparisonStep hi rounds) rounds)

theorem tracks_negation (words : Nat) : Tracks (negation inner rounds words) := by
  induction words with
  | zero => exact .fail nofun
  | succ words ih =>
    exact .choice (tracks_consumeWord (by decide)) (.bind ih fun _ => .pure) (tracks_compared hi rounds)

theorem tracks_conjunctionStep (left : Expr) : Tracks (conjunctionStep inner rounds left) :=
  .choice (tracks_consumeWord (by decide)) (.bind (tracks_negation hi rounds rounds) fun _ => .pure) .pure

theorem tracks_conjunction : Tracks (conjunction inner rounds) :=
  .bind (tracks_negation hi rounds rounds) (.extendWhile (tracks_conjunctionStep hi rounds) rounds)

theorem tracks_disjunctionStep (left : Expr) : Tracks (disjunctionStep inner rounds left) :=
  .choice (tracks_consumeWord (by decide)) (.bind (tracks_conjunction hi rounds) fun _ => .pure) .pure

theorem tracks_disjunction : Tracks (disjunction inner rounds) :=
  .bind (tracks_conjunction hi rounds) (.extendWhile (tracks_disjunctionStep hi rounds) rounds)

theorem tracks_conditional : Tracks (conditional inner rounds) := by
  refine .bind (tracks_disjunction hi rounds) fun value => .choice (tracks_consumeWord (by decide)) ?_ .pure
  refine .bind (tracks_disjunction hi rounds) fun condition => .choice (tracks_consumeWord (by decide)) ?_ .pure
  exact .bind hi fun _ => .pure

end Levels

theorem tracks_expression (bound : Nat) : Tracks (expression bound) := by
  induction bound with
  | zero => exact .fail nofun
  | succ bound ih => exact tracks_conditional ih (bound + 1)

end Parser

end Folio.Template
