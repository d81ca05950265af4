import Folio.Proofs.Template.Progress

/-! Totality of the parser. For every text it comes to nodes or to an error of the text itself: the bounds on rounds and
on nesting, which are above the length of the text, are never used up. On the way its place in the source only moves
forward and never stands inside a character. -/
namespace Folio.Template

variable {text after : List Char}

namespace Parser

variable {α β : Type} {bound : Nat}

/-! ### Tags -/

theorem advances_trimmed (content : List Char) : Advances bound free (trimmed content) :=
  fun _ _ _ => ⟨List.suffix_rfl, False.elim⟩

theorem advances_text : Advances bound free Parser.text := by
  intro text ht
  have s : (splitAtOpening text).2 <:+ text := ⟨_, splitAtOpening_append text⟩
  exact .rest (.goto s (advances_trimmed _ (Nat.lt_of_le_of_lt s.length_le ht)))

theorem advances_comment : Advances bound taken comment := by
  refine .behind (advances_expect (by decide)) fun _ => fun text ht => .rest ?_
  split
  · rename_i trim after h
    have s := afterComment_suffix h
    refine .goto s ?_
    cases trim with
    | false => exact .pure id
    | true => exact advances_trimNext true (Nat.lt_of_le_of_lt s.length_le ht)
  · exact .goto List.nil_suffix (.fail nofun)

theorem advances_openTag : Advances bound taken openTag :=
  .behind (advances_expect (by decide)) fun _ => .seq (advances_consume (by decide)) fun _ =>
    advances_identifier.mono le_rfl fun _ => False.elim

theorem advances_endTag {keyword : String} (hk : keyword.toList ≠ []) : Advances bound free (endTag keyword) :=
  .seq (advances_expect (by decide)) fun _ => .seq (advances_consume (by decide)) fun _ =>
    .seq (advances_expectWord hk) fun _ => advances_expectClose (by decide)

theorem advances_endOfText (ends : List String) : Advances bound free (endOfText ends) := by
  rw [endOfText]
  split
  · exact .fail nofun
  · exact .pure id

theorem advances_contextModifier : Advances bound free contextModifier := by
  have word {b : Bool} : Advances (bound - 1) free (do expectWord "context"; return b) :=
    .seq (advances_expectWord (by decide)) fun _ => .pure id
  exact .choice (advances_consumeWord (by decide)) word (.choice (advances_consumeWord (by decide)) word (.pure id))

theorem advances_importedName : Advances bound free importedName := by
  refine .seq advances_identifier fun name => .choice (advances_consumeWord (by decide)) ?_ (.pure id)
  exact .seq advances_identifier fun _ => .pure id

section Tags

variable {body : BodyParser} (hb : ∀ ends, Advances bound free (body ends)) {inner : Parser Expr}
  (hi : Advances bound free inner) {rounds : Nat} (hr : bound ≤ rounds)

/-- The closing delimiter of a tag. -/
theorem advances_close : Advances bound free (expectClose "%\x7d") :=
  advances_expectClose (by decide)

section

include hb

theorem advances_bodyUntil {closing : String} (hc : closing.toList ≠ []) :
    Advances bound free (bodyUntil body closing) :=
  .seq (hb _) fun _ => .seq (advances_endTag hc) fun _ => .pure id

theorem advances_blockTag : Advances bound free (blockTag body) := by
  refine .seq advances_identifier fun name => .seq advances_close fun _ => .seq (hb _) fun read => ?_
  have block : Advances bound free (do expectClose "%\x7d"; return Node.block name read.1) :=
    .seq advances_close fun _ => .pure id
  refine .seq (advances_expect (by decide)) fun _ => .seq (advances_consume (by decide)) fun _ => ?_
  refine .seq (advances_expectWord (by decide)) fun _ => .seq advances_skipBlank fun _ => ?_
  refine fun text ht => .rest (.ite ?_ (block ht))
  refine (Advances.seq advances_identifier fun closing => ?_ : Advances bound free _) ht
  have mismatch (cause : ParseError.Cause) (h : cause ≠ .exhausted) : Advances bound free (fail cause : Parser Unit) :=
    .fail h
  split
  · exact .seq (mismatch _ nofun) fun _ => block
  · exact block

include hi

/-- Every arm behind the first takes the tag in front of it. -/
theorem advances_arms {less : Nat} (hl : less ≤ bound) {tags : Nat} (ht : less ≤ tags) (condition : Expr) :
    Advances less free (arms body inner tags condition) := by
  induction tags generalizing less condition with
  | zero => rw [Nat.le_zero.1 ht]; exact .zero
  | succ tags ih =>
    have hl' : less - 1 ≤ bound := le_trans (Nat.sub_le _ _) hl
    have hb' (ends) : Advances (less - 1) free (body ends) := (hb ends).mono hl' fun _ => id
    refine .seq ((hb _).mono hl fun _ => id) fun read => .ite ?next (.ite ?otherwise ?last)
    case next =>
      refine .behind advances_openTag fun _ => .seq (hi.mono hl' fun _ => id) fun next =>
        .seq advances_close fun _ => ?_
      exact .seq (ih hl' (Nat.sub_le_of_le_add ht) next) fun _ => .pure id
    case otherwise =>
      refine .behind advances_openTag fun _ => .seq advances_close fun _ => ?_
      exact .seq (advances_bodyUntil hb' (by decide)) fun _ => .pure id
    case last => exact .seq (advances_endTag (by decide)) fun _ => .pure id

end

section

include hi

theorem advances_inclusionTag : Advances bound free (inclusionTag inner) := by
  have modifier {name ignoreMissing} : Advances bound free (do
      let withContext ← contextModifier
      expectClose "%\x7d"
      return Node.inclusion name ignoreMissing withContext) :=
    .seq advances_contextModifier fun _ => .seq advances_close fun _ => .pure id
  refine .seq hi fun name => .seq (advances_consumeWord (by decide)) fun ignoreMissing => .ite ?_ modifier
  exact .seq (advances_expectWord (by decide)) fun _ => modifier

theorem advances_assignTag : Advances bound free (assignTag inner) :=
  .seq advances_identifier fun _ => .seq advances_skipBlank fun _ => .seq (advances_expect (by decide)) fun _ =>
    .seq hi fun _ => .seq advances_close fun _ => .pure id

theorem advances_extendTag : Advances bound free (extendTag inner) :=
  .seq hi fun _ => .seq advances_close fun _ => .pure id

theorem advances_importTag : Advances bound free (importTag inner) :=
  .seq hi fun _ => .seq (advances_expectWord (by decide)) fun _ => .seq advances_identifier fun _ =>
    .seq advances_contextModifier fun _ => .seq advances_close fun _ => .pure id

theorem advances_outputTag : Advances (bound + 1) taken (outputTag inner) :=
  .behind (advances_expect (by decide)) fun _ => .seq (advances_consume (by decide)) fun _ =>
    .seq hi fun _ => .seq (advances_expectClose (by decide)) fun _ => .pure id

theorem advances_param : Advances bound free (param inner) := by
  refine .seq advances_identifier fun name => .seq advances_skipBlank fun _ => fun text ht => .rest ?_
  split
  · exact .pure id
  · rename_i after _
    have s : after <:+ '=' :: after := List.suffix_cons _ _
    exact .pass s ((Advances.seq hi fun _ => .pure id : Advances bound free _) (Nat.lt_of_le_of_lt s.length_le ht))
  · exact .pure id

end

theorem advances_rawTag : Advances bound free rawTag := by
  refine .seq advances_close fun _ => fun text ht => .rest ?_
  split
  · rename_i content after h
    have s : after <:+ text := ⟨_, splitAtEndRaw_append h⟩
    refine .goto s ((Advances.seq (advances_trimmed content) fun _ => ?_ : Advances bound free _)
      (Nat.lt_of_le_of_lt s.length_le ht))
    exact .seq (advances_endTag (by decide)) fun _ => .pure id
  · exact .goto List.nil_suffix (.fail nofun)

section

include hi hr

theorem advances_params : Advances bound free (params inner rounds) :=
  .seq (advances_expect (by decide)) fun _ => advances_listUntil (advances_param hi) hr (by decide)

theorem advances_optionalParams : Advances bound free (optionalParams inner rounds) :=
  .seq advances_skipBlank fun _ => .seq (advances_peek _) fun _ => .ite (advances_params hi hr) (.pure id)

theorem advances_importFromTag : Advances bound free (importFromTag inner rounds) :=
  .seq hi fun _ => .seq (advances_expectWord (by decide)) fun _ =>
    .seq (advances_listOf advances_importedName hr) fun _ =>
    .seq advances_contextModifier fun _ => .seq advances_close fun _ => .pure id

include hb

theorem advances_branchTag : Advances bound free (branchTag body inner rounds) :=
  .seq hi fun condition => .seq advances_close fun _ => .seq (advances_arms hb hi le_rfl hr condition) fun _ => .pure id

theorem advances_loopTag : Advances bound free (loopTag body inner rounds) := by
  have items : Advances bound free (disjunction inner rounds) := by
    cases bound with
    | zero => exact .zero
    | succ n => exact advances_disjunction hi.lower hr
  refine .seq (advances_listOf (advances_identifier.mono le_rfl fun _ => False.elim) hr) fun targets => ?_
  refine .seq (advances_expectWord (by decide)) fun _ => .seq items fun items => .seq advances_close fun _ => ?_
  refine .seq (hb _) fun read => .ite ?_ ?_
  · refine .seq advances_openTag fun _ => .seq advances_close fun _ => ?_
    exact .seq (advances_bodyUntil hb (by decide)) fun _ => .pure id
  · exact .seq (advances_endTag (by decide)) fun _ => .pure id

theorem advances_defineTag : Advances bound free (defineTag body inner rounds) :=
  .seq advances_identifier fun _ => .seq advances_skipBlank fun _ => .seq (advances_params hi hr) fun _ =>
    .seq advances_close fun _ => .seq (advances_bodyUntil hb (by decide)) fun _ => .pure id

theorem advances_callTag : Advances bound free (callTag body inner rounds) :=
  .seq (advances_optionalParams hi hr) fun _ => .seq hi fun _ => .seq advances_close fun _ =>
    .seq (advances_bodyUntil hb (by decide)) fun _ => .pure id

theorem advances_filterTag : Advances bound free (filterTag body inner rounds) := by
  have arguments : Advances bound free (optionalArguments inner rounds) := by
    cases bound with
    | zero => exact .zero
    | succ n => exact advances_optionalArguments hi.lower hr
  exact .seq advances_identifier fun _ => .seq arguments fun _ => .seq advances_close fun _ =>
    .seq (advances_bodyUntil hb (by decide)) fun _ => .pure id

/-- A tag of an unknown kind is given back, to be reported where it opens. -/
theorem advances_tag : Advances (bound + 1) taken (tag body inner rounds) := by
  intro text ht
  unfold tag
  refine .get fun opening h trimNext _ => (advances_openTag ht trimNext).bind fun keyword next s l => ?_
  have tail {p : Parser Node} (hp : Advances bound free p) : Comes text taken (p next) :=
    (hp.comes next (Nat.lt_of_lt_of_le (l trivial) (Nat.le_of_lt_succ ht))).of_shorter s (l trivial)
  split
  · exact tail (advances_branchTag hb hi hr)
  · exact tail (advances_loopTag hb hi hr)
  · exact tail (advances_inclusionTag hi)
  · exact tail (advances_assignTag hi)
  · exact tail (advances_blockTag hb)
  · exact tail (advances_extendTag hi)
  · exact tail advances_rawTag
  · exact tail (advances_defineTag hb hi hr)
  · exact tail (advances_callTag hb hi hr)
  · exact tail (advances_filterTag hb hi hr)
  · exact tail (advances_importTag hi)
  · exact tail (advances_importFromTag hi hr)
  · exact ⟨h ▸ List.suffix_rfl, nofun⟩

theorem advances_markup : Advances (bound + 1) taken (markup body inner rounds) := by
  refine .seq (advances_peek _) fun _ => .ite ?_ (.seq (advances_peek _) fun _ => .ite ?_ ?_)
  · exact .behind advances_comment fun _ => .pure id
  · exact .behind (advances_outputTag hi) fun _ => .pure id
  · exact .behind (advances_tag hb hi hr) fun _ => .pure id

end

end Tags

theorem advances_nodes (bound : Nat) (ends : List String) : Advances bound free (nodes bound ends) := by
  induction bound generalizing ends with
  | zero => exact .zero
  | succ bound ih =>
    refine .seq advances_text fun content => .seq advances_atEnd fun atEnd => .ite ?_ ?_
    · exact .seq (advances_endOfText ends) fun _ => .pure id
    refine fun text ht => .rest ?_
    split
    · exact .pure id
    · have node := advances_markup ih (advances_expression (bound + 1)).lower (Nat.le_succ bound)
      exact (Advances.behind node fun node => .seq (ih ends) fun _ => .pure id : Advances (bound + 1) free _) ht

/-! ### All parsers -/

/-- What stands inside a bracket or a tag's body is read by `inner` and `body`, which are good for texts of less than
`limit` characters, and a loop has more rounds than that. -/
structure Inside where
  limit : Nat
  rounds : Nat
  inner : Parser Expr
  body : BodyParser
  lt : limit < rounds
  inner_advances : Advances limit free inner
  body_advances : ∀ ends, Advances limit free (body ends)

/-- The parsers that `nodes` is made of, each with a bound on the texts that it reads and with the values on which it
has taken a character. The levels of an expression and the tags read longer texts than what stands inside them. -/
inductive Routine (w : Inside) : Nat → {α : Type} → (α → Prop) → Parser α → Prop
  -- what stands inside
  | inner : Routine w w.limit free w.inner
  | body (ends : List String) : Routine w w.limit free (w.body ends)
  -- tokens
  | peek (k : Nat) (token : String) : Routine w k free (peek token)
  | atEnd (k : Nat) : Routine w k free atEnd
  | skipBlank (k : Nat) : Routine w k free skipBlank
  | consume (k : Nat) {token : String} (h : token.toList ≠ []) : Routine w k (· = true) (consume token)
  | consumeWord (k : Nat) {keyword : String} (h : keyword.toList ≠ []) : Routine w k (· = true) (consumeWord keyword)
  | consumeWords (k : Nat) {first second : String} (hf : first.toList ≠ []) (hs : second.toList ≠ []) :
    Routine w k (· = true) (consumeWords first second)
  | expect (k : Nat) {token : String} (h : token.toList ≠ []) : Routine w k taken (expect token)
  | expectWord (k : Nat) {keyword : String} (h : keyword.toList ≠ []) : Routine w k taken (expectWord keyword)
  | expectClose (k : Nat) {close : String} (h : close.toList ≠ []) : Routine w k free (expectClose close)
  | failExpected (k : Nat) (token : String) : Routine w k taken (failExpected token : Parser Unit)
  | identifier (k : Nat) : Routine w k taken identifier
  -- literals
  | stringLiteral (k : Nat) (quote : Char) : Routine w k free (stringLiteral quote)
  | number (k : Nat) : Routine w k free number
  | lookupKey (k : Nat) : Routine w k free lookupKey
  -- brackets, with the loops over what they hold
  | skipArgumentName (k : Nat) : Routine w k free skipArgumentName
  | arguments {r : Nat} (h : w.limit ≤ r) : Routine w w.limit free (listUntil ")" (do skipArgumentName; w.inner) r)
  | callArguments : Routine w (w.limit + 1) taken (callArguments w.inner w.rounds)
  | optionalArguments : Routine w (w.limit + 1) free (optionalArguments w.inner w.rounds)
  | items {r : Nat} (h : w.limit ≤ r) : Routine w w.limit free (listUntil "]" w.inner r)
  | dictEntry : Routine w w.limit free (dictEntry w.inner)
  | entries {r : Nat} (h : w.limit ≤ r) : Routine w w.limit free (listUntil "\x7d" (dictEntry w.inner) r)
  | primary : Routine w (w.limit + 1) free (primary w.inner w.rounds)
  -- levels, each with its loop and the step of the loop
  | test (e : Expr) : Routine w (w.limit + 1) free (test w.inner w.rounds e)
  | postfixStep (e : Expr) : Routine w (w.limit + 1) (fun o => o.isSome) (postfixStep w.inner w.rounds e)
  | postfixes {r : Nat} (h : w.limit < r) (e : Expr) :
    Routine w (w.limit + 1) free (extendWhile (postfixStep w.inner w.rounds) r e)
  | postfixed : Routine w (w.limit + 1) free (postfixed w.inner w.rounds)
  | signed {k signs : Nat} (hl : k ≤ w.limit + 1) (hs : k ≤ signs) : Routine w k free (signed w.inner w.rounds signs)
  | productOperator? (k : Nat) : Routine w k (fun o => o.isSome) productOperator?
  | productStep (e : Expr) : Routine w (w.limit + 1) (fun o => o.isSome) (productStep w.inner w.rounds e)
  | products {r : Nat} (h : w.limit < r) (e : Expr) :
    Routine w (w.limit + 1) free (extendWhile (productStep w.inner w.rounds) r e)
  | product : Routine w (w.limit + 1) free (product w.inner w.rounds)
  | atTrimmedClose (k : Nat) : Routine w k free atTrimmedClose
  | sumStep (e : Expr) : Routine w (w.limit + 1) (fun o => o.isSome) (sumStep w.inner w.rounds e)
  | sums {r : Nat} (h : w.limit < r) (e : Expr) :
    Routine w (w.limit + 1) free (extendWhile (sumStep w.inner w.rounds) r e)
  | sum : Routine w (w.limit + 1) free (sum w.inner w.rounds)
  | joinStep (e : Expr) : Routine w (w.limit + 1) (fun o => o.isSome) (joinStep w.inner w.rounds e)
  | joins {r : Nat} (h : w.limit < r) (e : Expr) :
    Routine w (w.limit + 1) free (extendWhile (joinStep w.inner w.rounds) r e)
  | join : Routine w (w.limit + 1) free (join w.inner w.rounds)
  | comparison? (k : Nat) : Routine w k (fun o => o.isSome) comparison?
  | comparisonStep (e : Expr) : Routine w (w.limit + 1) (fun o => o.isSome) (comparisonStep w.inner w.rounds e)
  | comparisons {r : Nat} (h : w.limit < r) (e : Expr) :
    Routine w (w.limit + 1) free (extendWhile (comparisonStep w.inner w.rounds) r e)
  | compared : Routine w (w.limit + 1) free (compared w.inner w.rounds)
  | negation {k words : Nat} (hl : k ≤ w.limit + 1) (hw : k ≤ words) :
    Routine w k free (negation w.inner w.rounds words)
  | conjunctionStep (e : Expr) : Routine w (w.limit + 1) (fun o => o.isSome) (conjunctionStep w.inner w.rounds e)
  | conjunctions {r : Nat} (h : w.limit < r) (e : Expr) :
    Routine w (w.limit + 1) free (extendWhile (conjunctionStep w.inner w.rounds) r e)
  | conjunction : Routine w (w.limit + 1) free (conjunction w.inner w.rounds)
  | disjunctionStep (e : Expr) : Routine w (w.limit + 1) (fun o => o.isSome) (disjunctionStep w.inner w.rounds e)
  | disjunctions {r : Nat} (h : w.limit < r) (e : Expr) :
    Routine w (w.limit + 1) free (extendWhile (disjunctionStep w.inner w.rounds) r e)
  | disjunction : Routine w (w.limit + 1) free (disjunction w.inner w.rounds)
  | conditional : Routine w (w.limit + 1) free (conditional w.inner w.rounds)
  -- text and tags
  | trimmed (k : Nat) (content : List Char) : Routine w k free (trimmed content)
  | text (k : Nat) : Routine w k free Parser.text
  | comment (k : Nat) : Routine w k taken comment
  | openTag (k : Nat) : Routine w k taken openTag
  | endTag (k : Nat) {keyword : String} (h : keyword.toList ≠ []) : Routine w k free (endTag keyword)
  | endOfText (k : Nat) (ends : List String) : Routine w k free (endOfText ends)
  | bodyUntil {closing : String} (h : closing.toList ≠ []) : Routine w w.limit free (bodyUntil w.body closing)
  | arms {k tags : Nat} (hl : k ≤ w.limit) (ht : k ≤ tags) (condition : Expr) :
    Routine w k free (arms w.body w.inner tags condition)
  | branchTag : Routine w w.limit free (branchTag w.body w.inner w.rounds)
  | targets {r : Nat} (h : w.limit ≤ r) : Routine w w.limit free (listOf identifier r)
  | loopTag : Routine w w.limit free (loopTag w.body w.inner w.rounds)
  | contextModifier (k : Nat) : Routine w k free contextModifier
  | inclusionTag : Routine w w.limit free (inclusionTag w.inner)
  | assignTag : Routine w w.limit free (assignTag w.inner)
  | blockTag : Routine w w.limit free (blockTag w.body)
  | extendTag : Routine w w.limit free (extendTag w.inner)
  | rawTag (k : Nat) : Routine w k free rawTag
  | param : Routine w w.limit free (param w.inner)
  | parameters {r : Nat} (h : w.limit ≤ r) : Routine w w.limit free (listUntil ")" (param w.inner) r)
  | params : Routine w w.limit free (params w.inner w.rounds)
  | defineTag : Routine w w.limit free (defineTag w.body w.inner w.rounds)
  | optionalParams : Routine w w.limit free (optionalParams w.inner w.rounds)
  | callTag : Routine w w.limit free (callTag w.body w.inner w.rounds)
  | filterTag : Routine w w.limit free (filterTag w.body w.inner w.rounds)
  | importTag : Routine w w.limit free (importTag w.inner)
  | importedName (k : Nat) : Routine w k free importedName
  | importedNames {r : Nat} (h : w.limit ≤ r) : Routine w w.limit free (listOf importedName r)
  | importFromTag : Routine w w.limit free (importFromTag w.inner w.rounds)
  | tag : Routine w (w.limit + 1) taken (tag w.body w.inner w.rounds)
  | outputTag : Routine w (w.limit + 1) taken (outputTag w.inner)
  | markup : Routine w (w.limit + 1) taken (markup w.body w.inner w.rounds)

theorem Routine.advances {w : Inside} {k : Nat} {must : α → Prop} {p : Parser α} (h : Routine w k must p) :
    Advances k must p := by
  cases h with
  | inner => exact w.inner_advances
  | body _ => exact w.body_advances _
  | peek _ _ => exact advances_peek _
  | atEnd _ => exact advances_atEnd
  | skipBlank _ => exact advances_skipBlank
  | consume _ h => exact advances_consume h
  | consumeWord _ h => exact advances_consumeWord h
  | consumeWords _ hf hs => exact advances_consumeWords hf hs
  | expect _ h => exact advances_expect h
  | expectWord _ h => exact advances_expectWord h
  | expectClose _ h => exact advances_expectClose h
  | failExpected _ _ => exact advances_failExpected _
  | identifier _ => exact advances_identifier
  | stringLiteral _ _ => exact advances_stringLiteral _
  | number _ => exact advances_number
  | lookupKey _ => exact advances_lookupKey
  | skipArgumentName _ => exact advances_skipArgumentName
  | arguments h => exact advances_listUntil (.seq advances_skipArgumentName fun _ => w.inner_advances) h (by decide)
  | callArguments => exact advances_callArguments w.inner_advances w.lt
  | optionalArguments => exact advances_optionalArguments w.inner_advances w.lt
  | items h => exact advances_listUntil w.inner_advances h (by decide)
  | dictEntry => exact advances_dictEntry w.inner_advances
  | entries h => exact advances_listUntil (advances_dictEntry w.inner_advances) h (by decide)
  | primary => exact advances_primary w.inner_advances w.lt
  | test e => exact advances_test w.inner_advances w.lt e
  | postfixStep e => exact advances_postfixStep w.inner_advances w.lt e
  | postfixes h e => exact .extendWhile (advances_postfixStep w.inner_advances w.lt) h e
  | postfixed => exact advances_postfixed w.inner_advances w.lt
  | signed hl hs => exact advances_signed w.inner_advances w.lt hl hs
  | productOperator? _ => exact advances_productOperator?
  | productStep e => exact advances_productStep w.inner_advances w.lt e
  | products h e => exact .extendWhile (advances_productStep w.inner_advances w.lt) h e
  | product => exact advances_product w.inner_advances w.lt
  | atTrimmedClose _ => exact advances_atTrimmedClose
  | sumStep e => exact advances_sumStep w.inner_advances w.lt e
  | sums h e => exact .extendWhile (advances_sumStep w.inner_advances w.lt) h e
  | sum => exact advances_sum w.inner_advances w.lt
  | joinStep e => exact advances_joinStep w.inner_advances w.lt e
  | joins h e => exact .extendWhile (advances_joinStep w.inner_advances w.lt) h e
  | join => exact advances_join w.inner_advances w.lt
  | comparison? _ => exact advances_comparison?
  | comparisonStep e => exact advances_comparisonStep w.inner_advances w.lt e
  | comparisons h e => exact .extendWhile (advances_comparisonStep w.inner_advances w.lt) h e
  | compared => exact advances_compared w.inner_advances w.lt
  | negation hl hw => exact advances_negation w.inner_advances w.lt hl hw
  | conjunctionStep e => exact advances_conjunctionStep w.inner_advances w.lt e
  | conjunctions h e => exact .extendWhile (advances_conjunctionStep w.inner_advances w.lt) h e
  | conjunction => exact advances_conjunction w.inner_advances w.lt
  | disjunctionStep e => exact advances_disjunctionStep w.inner_advances w.lt e
  | disjunctions h e => exact .extendWhile (advances_disjunctionStep w.inner_advances w.lt) h e
  | disjunction => exact advances_disjunction w.inner_advances w.lt
  | conditional => exact advances_conditional w.inner_advances w.lt
  | trimmed _ _ => exact advances_trimmed _
  | text _ => exact advances_text
  | comment _ => exact advances_comment
  | openTag _ => exact advances_openTag
  | endTag _ h => exact advances_endTag h
  | endOfText _ _ => exact advances_endOfText _
  | bodyUntil h => exact advances_bodyUntil w.body_advances h
  | arms hl ht condition => exact advances_arms w.body_advances w.inner_advances hl ht condition
  | branchTag => exact advances_branchTag w.body_advances w.inner_advances w.lt.le
  | targets h => exact advances_listOf (advances_identifier.mono le_rfl fun _ => False.elim) h
  | loopTag => exact advances_loopTag w.body_advances w.inner_advances w.lt.le
  | contextModifier _ => exact advances_contextModifier
  | inclusionTag => exact advances_inclusionTag w.inner_advances
  | assignTag => exact advances_assignTag w.inner_advances
  | blockTag => exact advances_blockTag w.body_advances
  | extendTag => exact advances_extendTag w.inner_advances
  | rawTag _ => exact advances_rawTag
  | param => exact advances_param w.inner_advances
  | parameters h => exact advances_listUntil (advances_param w.inner_advances) h (by decide)
  | params => exact advances_params w.inner_advances w.lt.le
  | defineTag => exact advances_defineTag w.body_advances w.inner_advances w.lt.le
  | optionalParams => exact advances_optionalParams w.inner_advances w.lt.le
  | callTag => exact advances_callTag w.body_advances w.inner_advances w.lt.le
  | filterTag => exact advances_filterTag w.body_advances w.inner_advances w.lt.le
  | importTag => exact advances_importTag w.inner_advances
  | importedName _ => exact advances_importedName
  | importedNames h => exact advances_listOf advances_importedName h
  | importFromTag => exact advances_importFromTag w.inner_advances w.lt.le
  | tag => exact advances_tag w.body_advances w.inner_advances w.lt.le
  | outputTag => exact advances_outputTag w.inner_advances
  | markup => exact advances_markup w.body_advances w.inner_advances w.lt.le

end Parser

/-! ### Places in the source -/

theorem byteLength_eq (text : List Char) : byteLength text = (String.ofList text).utf8ByteSize := by
  have h (n : Nat) : text.foldl (fun bytes c => bytes + c.utf8Size) n = n + (String.ofList text).utf8ByteSize := by
    induction text generalizing n with
    | nil => simp
    | cons c rest ih => simp [ih, String.ofList_cons, Nat.add_assoc]
  simpa [byteLength] using h 0

theorem byteLength_append (text more : List Char) : byteLength (text ++ more) = byteLength text + byteLength more := by
  simp [byteLength_eq, String.ofList_append]

theorem byteLength_cons (c : Char) (text : List Char) : byteLength (c :: text) = c.utf8Size + byteLength text := by
  rw [← List.singleton_append, byteLength_append]
  simp [byteLength]

theorem byteLength_pos (h : text ≠ []) : 0 < byteLength text := by
  obtain ⟨c, rest, rfl⟩ := List.exists_cons_of_ne_nil h
  rw [byteLength_cons]
  have := c.utf8Size_pos
  omega

/-- The place in a source, counted in bytes, at which a text is left to read. -/
def placeOf (source : String) (left : List Char) : String.Pos.Raw :=
  ⟨byteLength source.toList - byteLength left⟩

/-- Where an end of the source starts, no character is split. -/
theorem isValid_placeOf {source : String} (h : text <:+ source.toList) : (placeOf source text).IsValid source := by
  obtain ⟨read, h⟩ := h
  refine String.Pos.Raw.isValid_iff_exists_append.2 ⟨String.ofList read, String.ofList text, ?_, ?_⟩
  · rw [← String.ofList_append, h, String.ofList_toList]
  · rw [placeOf, ← h, byteLength_append, Nat.add_sub_cancel, byteLength_eq]
    rfl

theorem placeOf_le {source : String} (h : after <:+ text) : placeOf source text ≤ placeOf source after := by
  obtain ⟨taken, rfl⟩ := h
  rw [String.Pos.Raw.le_iff, placeOf, placeOf, byteLength_append]
  dsimp only
  omega

theorem placeOf_lt {source : String} (hs : text <:+ source.toList) (h : after <:+ text)
    (hl : after.length < text.length) : placeOf source text < placeOf source after := by
  obtain ⟨taken, rfl⟩ := h
  obtain ⟨read, hs⟩ := hs
  have : 0 < byteLength taken := by
    apply byteLength_pos
    rintro rfl
    exact Nat.lt_irrefl _ hl
  rw [String.Pos.Raw.lt_iff, placeOf, placeOf, ← hs, byteLength_append, byteLength_append]
  dsimp only
  omega

/-- Over a source, a parser that started at a place has come to a place behind it, or fails at one, and not for a bound
used up. -/
def StaysOn (source : String) {α : Type} (must : α → Prop) (start : List Char) : Except Fault (α × Cursor) → Prop
  | .ok (value, cursor) =>
    (placeOf source cursor.rest).IsValid source ∧ placeOf source start ≤ placeOf source cursor.rest ∧
      (must value → placeOf source start < placeOf source cursor.rest)
  | .error fault =>
    (placeOf source fault.rest).IsValid source ∧ placeOf source start ≤ placeOf source fault.rest ∧
      fault.cause ≠ .exhausted

theorem staysOn_of_comes {source : String} {α : Type} {must : α → Prop} {outcome : Except Fault (α × Cursor)}
    (hs : text <:+ source.toList) (h : Parser.Comes text must outcome) : StaysOn source must text outcome := by
  cases outcome with
  | error fault => exact ⟨isValid_placeOf (h.1.trans hs), placeOf_le h.1, h.2⟩
  | ok read => exact ⟨isValid_placeOf (h.1.trans hs), placeOf_le h.1, fun m => placeOf_lt hs h.1 (h.2 m)⟩

/-- A snippet that is too short for so many bytes is the whole text. -/
theorem snippet_eq_of_lt {n : Nat} (h : byteLength (snippet n text) < n) : snippet n text = text := by
  fun_induction snippet n text with
  | case1 => rfl
  | case2 => exact absurd h (Nat.not_lt_zero _)
  | case3 n c rest ih =>
    rw [byteLength_cons] at h
    rw [ih (by omega)]

/-- A snippet ends with the first character that reaches so many bytes. -/
theorem byteLength_lt_of_prefix_snippet {n : Nat} {start : List Char} (h : start <+: snippet n text)
    (hne : start ≠ snippet n text) : byteLength start < n := by
  fun_induction snippet n text generalizing start with
  | case1 => exact absurd (List.prefix_nil.1 h) hne
  | case2 => exact absurd (List.prefix_nil.1 h) hne
  | case3 n c rest ih =>
    cases start with
    | nil => exact Nat.succ_pos n
    | cons d start =>
      obtain ⟨rfl, h⟩ := List.cons_prefix_cons.1 h
      have := ih h (fun e => hne (congrArg (d :: ·) e))
      rw [byteLength_cons]
      omega

/-- What the parser cuts out of a text are parts of it: the text before a tag or in a raw block, an identifier, what is
behind a token, and the shortest start of so many bytes that is shown in an error. -/
structure CutsInside (text : List Char) : Prop where
  opening : (splitAtOpening text).1 ++ (splitAtOpening text).2 = text
  raw : ∀ content after, splitAtEndRaw text = some (content, after) → content ++ after = text
  identifier : ∀ name after, identifier? text = some (name, after) →
    text.takeWhile Text.isBlank ++ name.toList ++ after = text
  token : ∀ token, dropToken token text <:+ text
  snippet : ∀ n, snippet n text <+: text ∧ (byteLength (snippet n text) < n → snippet n text = text) ∧
    ∀ start, start <+: snippet n text → start ≠ snippet n text → byteLength start < n

theorem cutsInside (text : List Char) : CutsInside text where
  opening := splitAtOpening_append text
  raw _ _ h := splitAtEndRaw_append h
  identifier _ _ h := identifier?_append h
  token token := dropToken_suffix token text
  snippet n := ⟨isPrefix_snippet n text, snippet_eq_of_lt, fun _ => byteLength_lt_of_prefix_snippet⟩

open Folio.Template.Parser in
/-- Reading a source ends with its nodes or with an error of the source. Expressions and bodies are read with no bound
but one above the length of their text. Every parser that takes part, over whatever reads the shorter texts inside
brackets and tags, keeps to places in the source between characters and only moves forward; the step of a loop that goes
on has moved. -/
theorem parse_total (source : String) :
    ((∃ nodes, parse source = .ok nodes) ∨ ∃ e, parse source = .error e ∧ e.cause ≠ .exhausted) ∧
    (∀ n, Advances n free (expression n) ∧ ∀ ends, Advances n free (nodes n ends)) ∧
    (∀ (w : Inside) (k : Nat) (α : Type) (must : α → Prop) (p : Parser α), Routine w k must p →
      ∀ cursor : Cursor, cursor.rest <:+ source.toList → cursor.rest.length < k →
        StaysOn source must cursor.rest (p cursor)) ∧
    ∀ text, text <:+ source.toList → CutsInside text := by
  refine ⟨?_, fun n => ⟨advances_expression n, advances_nodes n⟩, ?_, fun text _ => cutsInside text⟩
  · have h := (advances_nodes (source.toList.length + 1) []).comes ⟨source.toList, false⟩ (Nat.lt_succ_self _)
    rw [parse]
    split
    · exact .inl ⟨_, rfl⟩
    · rename_i fault e
      rw [e] at h
      exact .inr ⟨_, rfl, h.2⟩
  · intro w k α must p h cursor hs hk
    exact staysOn_of_comes hs (h.advances hk cursor.trimNext)

end Folio.Template
