import Folio.Proofs.Template.Tracking

/-! Positions of errors. In tags and bodies, as in expressions, the parser knows behind which part of the source it is,
so that an error stands where its line and column say, and an unknown tag where it opens. -/
namespace Folio.Template

variable {source text after read : List Char}

namespace Parser

variable {α β : Type}

/-! ### Tags -/

theorem tracks_trimmed (content : List Char) : Tracks (trimmed content) :=
  fun _ _ _ _ h => h

theorem tracks_text : Tracks Parser.text :=
  fun text => .rest (.goto (splitAtOpening_append text) (tracks_trimmed _ _))

theorem tracks_comment : Tracks comment := by
  refine .bind (tracks_expect (by decide)) fun _ => fun text => .rest ?_
  split
  · rename_i trim after h
    exact .goto (front_append (afterComment_suffix h)) (.ite (tracks_trimNext true _) .pure)
  · exact .goto (List.append_nil text) (.fail nofun)

theorem tracks_openTag : Tracks openTag :=
  .bind (tracks_expect (by decide)) fun _ => .bind (tracks_consume (by decide)) fun _ => tracks_identifier

theorem tracks_close : Tracks (expectClose "%\x7d") :=
  tracks_expectClose (by decide)

theorem tracks_endTag {keyword : String} (hk : '\n' ∉ keyword.toList) : Tracks (endTag keyword) :=
  .bind (tracks_expect (by decide)) fun _ => .bind (tracks_consume (by decide)) fun _ =>
    .bind (tracks_expectWord hk) fun _ => tracks_close

theorem tracks_endOfText (ends : List String) : Tracks (endOfText ends) := by
  rw [endOfText]
  split
  · exact .fail fun keyword e => by cases e
  · exact .pure

theorem tracks_contextModifier : Tracks contextModifier := by
  have word {b : Bool} : Tracks (do expectWord "context"; return b) :=
    .bind (tracks_expectWord (by decide)) fun _ => .pure
  exact .choice (tracks_consumeWord (by decide)) word (.choice (tracks_consumeWord (by decide)) word .pure)

theorem tracks_importedName : Tracks importedName := by
  refine .bind tracks_identifier fun name => .choice (tracks_consumeWord (by decide)) ?_ .pure
  exact .bind tracks_identifier fun _ => .pure

theorem tracks_rawTag : Tracks rawTag := by
  refine .bind tracks_close fun _ => fun text => .rest ?_
  split
  · rename_i content after h
    refine .goto (splitAtEndRaw_append h) ((Tracks.bind (tracks_trimmed content) fun _ => ?_ : Tracks _) after)
    exact .bind (tracks_endTag (by decide)) fun _ => .pure
  · exact .goto (List.append_nil text) (.fail nofun)

section Tags

variable {body : BodyParser} (hb : ∀ ends, Tracks (body ends)) {inner : Parser Expr} (hi : Tracks inner) (rounds : Nat)

section

include hb

theorem tracks_bodyUntil {closing : String} (hc : '\n' ∉ closing.toList) : Tracks (bodyUntil body closing) :=
  .bind (hb _) fun _ => .bind (tracks_endTag hc) fun _ => .pure

theorem tracks_blockTag : Tracks (blockTag body) := by
  refine .bind tracks_identifier fun name => .bind tracks_close fun _ => .bind (hb _) fun read => ?_
  have block : Tracks (do expectClose "%\x7d"; return Node.block name read.1) := .bind tracks_close fun _ => .pure
  refine .bind (tracks_expect (by decide)) fun _ => .bind (tracks_consume (by decide)) fun _ => ?_
  refine .bind (tracks_expectWord (by decide)) fun _ => .bind tracks_skipBlank fun _ => ?_
  refine fun text => .rest (.ite ((Tracks.bind tracks_identifier fun closing => ?_ : Tracks _) text) (block text))
  have mismatch (cause : ParseError.Cause) (h : ∀ keyword, cause ≠ .unknownTag keyword) :
      Tracks (fail cause : Parser Unit) :=
    .fail h
  split
  · exact .bind (mismatch _ nofun) fun _ => block
  · exact block

include hi

theorem tracks_arms (tags : Nat) (condition : Expr) : Tracks (arms body inner tags condition) := by
  induction tags generalizing condition with
  | zero => exact .fail nofun
  | succ tags ih =>
    refine .bind (hb _) fun read => .ite ?next (.ite ?otherwise ?last)
    case next =>
      refine .bind tracks_openTag fun _ => .bind hi fun next => .bind tracks_close fun _ => ?_
      exact .bind (ih next) fun _ => .pure
    case otherwise =>
      refine .bind tracks_openTag fun _ => .bind tracks_close fun _ => ?_
      exact .bind (tracks_bodyUntil hb (by decide)) fun _ => .pure
    case last => exact .bind (tracks_endTag (by decide)) fun _ => .pure

theorem tracks_branchTag : Tracks (branchTag body inner rounds) :=
  .bind hi fun condition => .bind tracks_close fun _ => .bind (tracks_arms hb hi rounds condition) fun _ => .pure

theorem tracks_loopTag : Tracks (loopTag body inner rounds) := by
  refine .bind (tracks_listOf tracks_identifier rounds) fun targets => .bind (tracks_expectWord (by decide)) fun _ => ?_
  refine .bind (tracks_disjunction hi rounds) fun items => .bind tracks_close fun _ => ?_
  refine .bind (hb _) fun read => .ite ?_ ?_
  · refine .bind tracks_openTag fun _ => .bind tracks_close fun _ => ?_
    exact .bind (tracks_bodyUntil hb (by decide)) fun _ => .pure
  · exact .bind (tracks_endTag (by decide)) fun _ => .pure

end

section

include hi

theorem tracks_inclusionTag : Tracks (inclusionTag inner) := by
  have modifier {name ignoreMissing} : Tracks (do
      let withContext ← contextModifier
      expectClose "%\x7d"
      return Node.inclusion name ignoreMissing withContext) :=
    .bind tracks_contextModifier fun _ => .bind tracks_close fun _ => .pure
  refine .bind hi fun name => .bind (tracks_consumeWord (by decide)) fun ignoreMissing => .ite ?_ modifier
  exact .bind (tracks_expectWord (by decide)) fun _ => modifier

theorem tracks_assignTag : Tracks (assignTag inner) :=
  .bind tracks_identifier fun _ => .bind tracks_skipBlank fun _ => .bind (tracks_expect (by decide)) fun _ =>
    .bind hi fun _ => .bind tracks_close fun _ => .pure

theorem tracks_extendTag : Tracks (extendTag inner) :=
  .bind hi fun _ => .bind tracks_close fun _ => .pure

theorem tracks_importTag : Tracks (importTag inner) :=
  .bind hi fun _ => .bind (tracks_expectWord (by decide)) fun _ => .bind tracks_identifier fun _ =>
    .bind tracks_contextModifier fun _ => .bind tracks_close fun _ => .pure

theorem tracks_importFromTag : Tracks (importFromTag inner rounds) :=
  .bind hi fun _ => .bind (tracks_expectWord (by decide)) fun _ =>
    .bind (tracks_listOf tracks_importedName rounds) fun _ =>
    .bind tracks_contextModifier fun _ => .bind tracks_close fun _ => .pure

theorem tracks_outputTag : Tracks (outputTag inner) :=
  .bind (tracks_expect (by decide)) fun _ => .bind (tracks_consume (by decide)) fun _ =>
    .bind hi fun _ => .bind (tracks_expectClose (by decide)) fun _ => .pure

theorem tracks_param : Tracks (param inner) := by
  refine .bind tracks_identifier fun name => .bind tracks_skipBlank fun _ => fun text => .rest ?_
  split
  · exact .pure
  · rename_i after _
    exact .pass (by decide) rfl ((Tracks.bind hi fun _ => .pure : Tracks _) after)
  · exact .pure

theorem tracks_params : Tracks (params inner rounds) :=
  .bind (tracks_expect (by decide)) fun _ => tracks_listUntil (tracks_param hi) rounds (by decide)

theorem tracks_optionalParams : Tracks (optionalParams inner rounds) :=
  .bind tracks_skipBlank fun _ => .choice (tracks_peek _) (tracks_params hi rounds) .pure

include hb

theorem tracks_defineTag : Tracks (defineTag body inner rounds) :=
  .bind tracks_identifier fun _ => .bind tracks_skipBlank fun _ => .bind (tracks_params hi rounds) fun _ =>
    .bind tracks_close fun _ => .bind (tracks_bodyUntil hb (by decide)) fun _ => .pure

theorem tracks_callTag : Tracks (callTag body inner rounds) :=
  .bind (tracks_optionalParams hi rounds) fun _ => .bind hi fun _ => .bind tracks_close fun _ =>
    .bind (tracks_bodyUntil hb (by decide)) fun _ => .pure

theorem tracks_filterTag : Tracks (filterTag body inner rounds) :=
  .bind tracks_identifier fun _ => .bind (tracks_optionalArguments hi rounds) fun _ => .bind tracks_close fun _ =>
    .bind (tracks_bodyUntil hb (by decide)) fun _ => .pure

end

end Tags

/-! ### The tag that opens -/

section Opening

variable {cursor next : Cursor}

theorem identifier?_of_identifier {name : String} (h : identifier cursor = .ok (name, next)) :
    identifier? cursor.rest = some (name, next.rest) := by
  obtain ⟨_, _, hs, h⟩ := exists_of_bind h
  cases hs
  obtain ⟨_, _, hr, h⟩ := exists_of_bind h
  cases hr
  have solid : identifier? cursor.rest = identifier? (cursor.rest.dropWhile Text.isBlank) := by
    rw [identifier?, identifier?, List.dropWhile_idempotent]
  rw [solid]
  cases e : identifier? (cursor.rest.dropWhile Text.isBlank) with
  | some found =>
    rw [e] at h
    cases h
    rfl
  | none =>
    rw [e] at h
    obtain ⟨_, _, hr, h⟩ := exists_of_bind h
    cases hr
    cases start : cursor.rest.dropWhile Text.isBlank with
    | nil => rw [start] at h; cases h
    | cons => rw [start] at h; cases h

theorem isPrefix_of_tagKeyword? {text : List Char} {keyword : String} (h : tagKeyword? text = some keyword) :
    ['{', '%'] <+: text := by
  unfold tagKeyword? at h
  split at h
  · exact ⟨_, rfl⟩
  · cases h

/-- The keyword that a tag opens with is the one that shows ahead of it. -/
theorem tagKeyword?_of_openTag {keyword : String} (h : openTag cursor = .ok (keyword, next)) :
    tagKeyword? cursor.rest = some keyword := by
  obtain ⟨⟨⟩, inside, he, h⟩ := exists_of_bind h
  obtain ⟨dash, behind, hd, h⟩ := exists_of_bind h
  obtain ⟨opens, rest, -⟩ := rest_of_expect he
  obtain ⟨after, e⟩ := List.isPrefixOf_iff_prefix.1 opens
  have rest : inside.rest = after := by
    rw [rest, dropToken, ← e, List.isPrefixOf?_eq_some_iff_append_eq.2 rfl]
    rfl
  rw [← e]
  change (identifier? (dropToken "-" after)).map (·.1) = some keyword
  rw [← rest, ← (rest_of_consume hd).2.1, identifier?_of_identifier h]
  rfl

end Opening

section Bodies

variable {body : BodyParser} (hb : ∀ ends, Tracks (body ends)) {inner : Parser Expr} (hi : Tracks inner) (rounds : Nat)

section

include hb hi

/-- A tag of an unknown kind is given back with the position at which it opens. -/
theorem tracks_tag : Tracks (tag body inner rounds) := by
  intro text source trimNext position start
  rw [tag]
  refine Kept.bind (p := get) start fun opening next read _ => ?_
  cases read
  refine (tracks_openTag text source trimNext position start).bind fun keyword next opened h => ?_
  have tail {p : Parser Node} (hp : Tracks p) : Kept source (p next) :=
    hp next.rest source next.trimNext next.position h
  split
  · exact tail (tracks_branchTag hb hi rounds)
  · exact tail (tracks_loopTag hb hi rounds)
  · exact tail (tracks_inclusionTag hi)
  · exact tail (tracks_assignTag hi)
  · exact tail (tracks_blockTag hb)
  · exact tail (tracks_extendTag hi)
  · exact tail tracks_rawTag
  · exact tail (tracks_defineTag hb hi rounds)
  · exact tail (tracks_callTag hb hi rounds)
  · exact tail (tracks_filterTag hb hi rounds)
  · exact tail (tracks_importTag hi)
  · exact tail (tracks_importFromTag hi rounds)
  · refine ⟨start, fun name e => ?_⟩
    cases e
    exact tagKeyword?_of_openTag opened

theorem tracks_markup : Tracks (markup body inner rounds) := by
  refine .choice (tracks_peek _) (.bind tracks_comment fun _ => .pure) (.choice (tracks_peek _) ?_ ?_)
  · exact .bind (tracks_outputTag hi) fun _ => .pure
  · exact .bind (tracks_tag hb hi rounds) fun _ => .pure

end

end Bodies

theorem tracks_nodes (bound : Nat) (ends : List String) : Tracks (nodes bound ends) := by
  induction bound generalizing ends with
  | zero => exact .fail nofun
  | succ bound ih =>
    refine .bind tracks_text fun content => .choice tracks_atEnd ?_ fun text => .rest ?_
    · exact .bind (tracks_endOfText ends) fun _ => .pure
    · split
      · exact .pure
      · have node := tracks_markup ih (tracks_expression (bound + 1)) (bound + 1)
        exact (Tracks.bind node fun node => .bind (ih ends) fun _ => .pure : Tracks _) text

/-! ### All parsers -/

/-- The token that a parser is given. -/
inductive Spells : {α : Type} → Parser α → String → Prop
  | consume (token : String) : Spells (consume token) token
  | consumeWord (keyword : String) : Spells (consumeWord keyword) keyword
  | first (first second : String) : Spells (consumeWords first second) first
  | second (first second : String) : Spells (consumeWords first second) second
  | expect (token : String) : Spells (expect token) token
  | expectWord (keyword : String) : Spells (expectWord keyword) keyword
  | expectClose (close : String) : Spells (expectClose close) close
  | endTag (keyword : String) : Spells (endTag keyword) keyword
  | bodyUntil (body : BodyParser) (closing : String) : Spells (bodyUntil body closing) closing

/-- With tokens that have no line break, every parser keeps track of its position if those do that read what stands in
brackets and in bodies. -/
theorem Routine.tracks {w : Inside} (hi : Tracks w.inner) (hb : ∀ ends, Tracks (w.body ends)) {k : Nat}
    {must : α → Prop} {p : Parser α} (h : Routine w k must p) (ht : ∀ token, Spells p token → '\n' ∉ token.toList) :
    Tracks p := by
  cases h with
  | inner => exact hi
  | body _ => exact hb _
  | peek _ _ => exact tracks_peek _
  | atEnd _ => exact tracks_atEnd
  | skipBlank _ => exact tracks_skipBlank
  | consume _ _ => exact tracks_consume (ht _ (.consume _))
  | consumeWord _ _ => exact tracks_consumeWord (ht _ (.consumeWord _))
  | consumeWords _ _ _ => exact tracks_consumeWords (ht _ (.first _ _)) (ht _ (.second _ _))
  | expect _ _ => exact tracks_expect (ht _ (.expect _))
  | expectWord _ _ => exact tracks_expectWord (ht _ (.expectWord _))
  | expectClose _ _ => exact tracks_expectClose (ht _ (.expectClose _))
  | failExpected _ _ => exact tracks_failExpected _
  | identifier _ => exact tracks_identifier
  | stringLiteral _ _ => exact tracks_stringLiteral _
  | number _ => exact tracks_number
  | lookupKey _ => exact tracks_lookupKey
  | skipArgumentName _ => exact tracks_skipArgumentName
  | arguments _ => exact tracks_listUntil (.bind tracks_skipArgumentName fun _ => hi) _ (by decide)
  | callArguments => exact tracks_callArguments hi _
  | optionalArguments => exact tracks_optionalArguments hi _
  | items _ => exact tracks_listUntil hi _ (by decide)
  | dictEntry => exact tracks_dictEntry hi
  | entries _ => exact tracks_listUntil (tracks_dictEntry hi) _ (by decide)
  | primary => exact tracks_primary hi _
  | test e => exact tracks_test hi _ e
  | postfixStep e => exact tracks_postfixStep hi _ e
  | postfixes _ e => exact .extendWhile (tracks_postfixStep hi _) _ e
  | postfixed => exact tracks_postfixed hi _
  | signed _ _ => exact tracks_signed hi _ _
  | productOperator? _ => exact tracks_productOperator?
  | productStep e => exact tracks_productStep hi _ e
  | products _ e => exact .extendWhile (tracks_productStep hi _) _ e
  | product => exact tracks_product hi _
  | atTrimmedClose _ => exact tracks_atTrimmedClose
  | sumStep e => exact tracks_sumStep hi _ e
  | sums _ e => exact .extendWhile (tracks_sumStep hi _) _ e
  | sum => exact tracks_sum hi _
  | joinStep e => exact tracks_joinStep hi _ e
  | joins _ e => exact .extendWhile (tracks_joinStep hi _) _ e
  | join => exact tracks_join hi _
  | comparison? _ => exact tracks_comparison?
  | comparisonStep e => exact tracks_comparisonStep hi _ e
  | comparisons _ e => exact .extendWhile (tracks_comparisonStep hi _) _ e
  | compared => exact tracks_compared hi _
  | negation _ _ => exact tracks_negation hi _ _
  | conjunctionStep e => exact tracks_conjunctionStep hi _ e
  | conjunctions _ e => exact .extendWhile (tracks_conjunctionStep hi _) _ e
  | conjunction => exact tracks_conjunction hi _
  | disjunctionStep e => exact tracks_disjunctionStep hi _ e
  | disjunctions _ e => exact .extendWhile (tracks_disjunctionStep hi _) _ e
  | disjunction => exact tracks_disjunction hi _
  | conditional => exact tracks_conditional hi _
  | trimmed _ _ => exact tracks_trimmed _
  | text _ => exact tracks_text
  | comment _ => exact tracks_comment
  | openTag _ => exact tracks_openTag
  | endTag _ _ => exact tracks_endTag (ht _ (.endTag _))
  | endOfText _ _ => exact tracks_endOfText _
  | bodyUntil _ => exact tracks_bodyUntil hb (ht _ (.bodyUntil _ _))
  | arms _ _ condition => exact tracks_arms hb hi _ condition
  | branchTag => exact tracks_branchTag hb hi _
  | targets _ => exact tracks_listOf tracks_identifier _
  | loopTag => exact tracks_loopTag hb hi _
  | contextModifier _ => exact tracks_contextModifier
  | inclusionTag => exact tracks_inclusionTag hi
  | assignTag => exact tracks_assignTag hi
  | blockTag => exact tracks_blockTag hb
  | extendTag => exact tracks_extendTag hi
  | rawTag _ => exact tracks_rawTag
  | param => exact tracks_param hi
  | parameters _ => exact tracks_listUntil (tracks_param hi) _ (by decide)
  | params => exact tracks_params hi _
  | defineTag => exact tracks_defineTag hb hi _
  | optionalParams => exact tracks_optionalParams hi _
  | callTag => exact tracks_callTag hb hi _
  | filterTag => exact tracks_filterTag hb hi _
  | importTag => exact tracks_importTag hi
  | importedName _ => exact tracks_importedName
  | importedNames _ => exact tracks_listOf tracks_importedName _
  | importFromTag => exact tracks_importFromTag hi _
  | tag => exact tracks_tag hb hi _
  | outputTag => exact tracks_outputTag hi
  | markup => exact tracks_markup hb hi _

end Parser

/-! ### Where an error stands -/

/-- The error stands behind the part of the source that is read: on the line after its last line break, in the column
after the bytes since then. No other part of the source ends there. -/
structure StandsBehind (e : ParseError) (source : String) (read : List Char) : Prop where
  le : byteLength read ≤ source.utf8ByteSize
  line : e.line = 1 + read.count '\n'
  column : e.column = byteLength read - byteLength (read.rdropWhile (· ≠ '\n')) + 1
  unique : ∀ other, other <+: source.toList → e.line = 1 + other.count '\n' →
    e.column = byteLength other - byteLength (other.rdropWhile (· ≠ '\n')) + 1 → other = read

theorem standsBehind_of_behind {fault : Fault} {source : String} (h : read ++ after = source.toList)
    (hp : fault.position = .behind read) : StandsBehind fault.locate source read := by
  have line : fault.locate.line = (Position.behind read).line := by rw [← hp]; rfl
  have column : fault.locate.column = (Position.behind read).offset - (Position.behind read).lineStart + 1 := by
    rw [← hp]
    rfl
  refine ⟨?_, line, column, fun other ho hl hc => ?_⟩
  · have bytes : source.utf8ByteSize = byteLength read + byteLength after := by
      rw [← byteLength_append, h, byteLength_eq, String.ofList_toList]
    omega
  · rw [line] at hl
    rw [column] at hc
    rcases List.prefix_or_prefix_of_prefix ho ⟨after, h⟩ with shorter | longer
    · exact Position.eq_of_prefix shorter hl.symm (Nat.succ.inj hc).symm
    · exact (Position.eq_of_prefix longer hl (Nat.succ.inj hc)).symm

open Folio.Template.Parser in
/-- An error stands behind a part of the source, an unknown tag behind the part in front of it. Expressions and bodies
are read with the position of what is left. So does every parser that takes part, over whatever reads the shorter texts
inside brackets and tags, as long as the tokens that it is given have no line break. -/
theorem standsBehind_of_error {source : String} {e : ParseError} (h : parse source = .error e) :
    (∃ read left, read ++ left = source.toList ∧ StandsBehind e source read ∧
      ∀ keyword, e.cause = .unknownTag keyword → ['{', '%'] <+: left ∧ tagKeyword? left = some keyword) ∧
    (∀ n, Tracks (expression n) ∧ ∀ ends, Tracks (nodes n ends)) ∧
    ∀ w : Inside, Tracks w.inner → (∀ ends, Tracks (w.body ends)) →
      ∀ (k : Nat) (α : Type) (must : α → Prop) (p : Parser α), Routine w k must p →
        (∀ token, Spells p token → '\n' ∉ token.toList) → Tracks p := by
  refine ⟨?_, fun n => ⟨tracks_expression n, tracks_nodes n⟩, fun w hi hb k α must p hp ht => hp.tracks hi hb ht⟩
  have kept := tracks_nodes (source.toList.length + 1) [] source.toList source.toList false .start ⟨[], rfl, rfl⟩
  rw [parse] at h
  split at h
  · cases h
  · rename_i fault run
    cases h
    rw [run] at kept
    obtain ⟨⟨read, hr, hp⟩, unknown⟩ := kept
    refine ⟨read, fault.rest, hr, standsBehind_of_behind hr hp, fun keyword hk => ⟨?_, unknown keyword hk⟩⟩
    exact isPrefix_of_tagKeyword? (unknown keyword hk)

theorem standsBehind_of_unknown_tag :
    parse "line one\n  \x7b% widget x %\x7d" = .error ⟨2, 3, .unknownTag "widget"⟩ ∧
      ∃ read left, read ++ left = "line one\n  \x7b% widget x %\x7d".toList ∧
        StandsBehind ⟨2, 3, .unknownTag "widget"⟩ "line one\n  \x7b% widget x %\x7d" read ∧
        ∀ keyword, ParseError.Cause.unknownTag "widget" = .unknownTag keyword →
          ['{', '%'] <+: left ∧ tagKeyword? left = some keyword := by
  have run : parse "line one\n  \x7b% widget x %\x7d" = .error ⟨2, 3, .unknownTag "widget"⟩ := by rfl
  exact ⟨run, (standsBehind_of_error run).1⟩

end Folio.Template
