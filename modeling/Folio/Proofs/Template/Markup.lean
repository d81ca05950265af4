import Folio.Proofs.Template.Rereading
import Mathlib.Data.List.Chain

/-! Templates as text. A template is printed as pieces: its texts, its outputs and its tags, with the bodies of a tag
between the tag and the one that ends it. A body is read back piece by piece, up to what ends it. -/
namespace Folio

def Node.isText : Node → Bool
  | .text _ => true
  | _ => false

namespace Template

variable {text after gap : List Char}

/-! ### Pieces -/

/-- A part of a template without another template in it. -/
inductive Piece where
  | text (content : String)
  | output (tokens : List Token)
  | tag (keyword : String) (tokens : List Token)

/-- The texts of a piece. Blanks stand next to the delimiters and between the tokens. -/
inductive Piece.Written : Piece → List Char → Prop
  | text (content : String) : Written (.text content) content.toList
  | output {tokens : List Token} {gap chars : List Char} : gap ≠ [] → IsBlank gap → Template.Written tokens chars →
    Written (.output tokens) ("\x7b\x7b".toList ++ (gap ++ (chars ++ "\x7d\x7d".toList)))
  | tag {keyword : String} {tokens : List Token} {gap chars : List Char} : gap ≠ [] → IsBlank gap →
    Template.Written (.word keyword :: tokens) chars →
    Written (.tag keyword tokens) ("\x7b%".toList ++ (gap ++ (chars ++ "%\x7d".toList)))

/-- The texts of pieces, one behind the other. -/
inductive Composed : List Piece → List Char → Prop
  | nil : Composed [] []
  | cons {piece : Piece} {pieces : List Piece} {chars text : List Char} : piece.Written chars → Composed pieces text →
    Composed (piece :: pieces) (chars ++ text)

theorem composed_cons {piece : Piece} {pieces : List Piece} : Composed (piece :: pieces) text ↔
    ∃ chars more, text = chars ++ more ∧ piece.Written chars ∧ Composed pieces more := by
  constructor
  · rintro (_ | ⟨hp, h⟩)
    exact ⟨_, _, rfl, hp, h⟩
  · rintro ⟨chars, more, rfl, hp, h⟩
    exact .cons hp h

theorem composed_append {first second : List Piece} : Composed (first ++ second) text ↔
    ∃ one two, text = one ++ two ∧ Composed first one ∧ Composed second two := by
  induction first generalizing text with
  | nil =>
    constructor
    · exact fun h => ⟨[], text, rfl, .nil, h⟩
    · rintro ⟨one, two, rfl, h, h'⟩
      cases h
      exact h'
  | cons piece first ih =>
    constructor
    · rintro (_ | ⟨hp, h⟩)
      obtain ⟨one, two, rfl, h, h'⟩ := ih.1 h
      exact ⟨_, two, by simp, .cons hp h, h'⟩
    · rintro ⟨one, two, rfl, h, h'⟩
      obtain _ | ⟨hp, h⟩ := h
      simpa using Composed.cons hp (ih.2 ⟨_, two, rfl, h, h'⟩)

section Pieces

variable (extra : Expr → Bool)

def tokensOfParam (p : Param) : List Token :=
  .word p.name :: match p.default with
    | none => []
    | some e => .mark "=" :: tokensAt extra 0 e

def tokensOfParams (params : List Param) : List Token :=
  bracketed "(" (params.map (tokensOfParam extra)) ")"

def startsWithParenthesis : List Token → Bool
  | .mark symbol :: _ => symbol = "("
  | _ => false

/-- The parameters of a call block and its call. Parentheses at the start of the call would be read as parameters if
there were none. -/
def tokensOfCall (params : List Param) (call : Expr) : List Token :=
  (if params.isEmpty && !startsWithParenthesis (tokensAt extra 0 call) then [] else tokensOfParams extra params) ++
    tokensAt extra 0 call

/-- A name to import, with the name to know it by if that is another. -/
def tokensOfImport (names : String × String) : List Token :=
  .word names.1 :: if names.1 = names.2 then [] else [.word "as", .word names.2]

def inclusionModifiers (ignoreMissing withContext : Bool) : List Token :=
  (if ignoreMissing then [.word "ignore", .word "missing"] else []) ++
    if withContext then [] else [.word "without", .word "context"]

mutual

/-- The pieces of a node. The items of a loop stand where no inline `if` can without parentheses. -/
def pieces : Node → List Piece
  | .text content => [.text content]
  | .output e => [.output (tokensAt extra 0 e)]
  | .branch arms otherwise => piecesOfArms "if" arms ++ (piecesOfElse otherwise ++ [.tag "endif" []])
  | .inclusion name ignoreMissing withContext =>
    [.tag "include" (tokensAt extra 0 name ++ inclusionModifiers ignoreMissing withContext)]
  | .block name body => .tag "block" [.word name] :: (piecesOfAll body ++ [.tag "endblock" []])
  | .loop targets items body otherwise =>
    .tag "for" (commaSeparated (targets.map (fun name => [.word name])) ++ .word "in" :: tokensAt extra 1 items) ::
      (piecesOfAll body ++ (piecesOfElse otherwise ++ [.tag "endfor" []]))
  | .assign name value => [.tag "set" (.word name :: .mark "=" :: tokensAt extra 0 value)]
  | .extend parent => [.tag "extends" (tokensAt extra 0 parent)]
  | .define name params body =>
    .tag "macro" (.word name :: tokensOfParams extra params) :: (piecesOfAll body ++ [.tag "endmacro" []])
  | .callBlock params call body =>
    .tag "call" (tokensOfCall extra params call) :: (piecesOfAll body ++ [.tag "endcall" []])
  | .filterBlock name args body =>
    .tag "filter" (.word name :: bracketed "(" (tokensOfAll extra args) ")") ::
      (piecesOfAll body ++ [.tag "endfilter" []])
  | .importAs template name => [.tag "import" (tokensAt extra 0 template ++ [.word "as", .word name])]
  | .importFrom template names =>
    [.tag "from" (tokensAt extra 0 template ++ .word "import" :: commaSeparated (names.map tokensOfImport))]

def piecesOfAll : List Node → List Piece
  | [] => []
  | n :: ns => pieces n ++ piecesOfAll ns

/-- Only the first of the arms of an `if` has its keyword. -/
def piecesOfArms (keyword : String) : List (Expr × List Node) → List Piece
  | [] => []
  | (condition, body) :: arms =>
    .tag keyword (tokensAt extra 0 condition) :: (piecesOfAll body ++ piecesOfArms "elif" arms)

def piecesOfElse : Option (List Node) → List Piece
  | none => []
  | some body => .tag "else" [] :: piecesOfAll body

end

theorem pieces_text (content : String) : pieces extra (.text content) = [.text content] :=
  rfl

theorem pieces_output (e : Expr) : pieces extra (.output e) = [.output (tokensAt extra 0 e)] :=
  rfl

theorem piecesOfAll_nil : piecesOfAll extra [] = [] :=
  rfl

theorem piecesOfAll_cons (n : Node) (ns : List Node) :
    piecesOfAll extra (n :: ns) = pieces extra n ++ piecesOfAll extra ns :=
  rfl

end Pieces

/-! ### Templates that have a text -/

/-- No text follows another. -/
def Separate (nodes : List Node) : Prop :=
  nodes.IsChain (fun first second => first.isText → second.isText = false)

/-- What starts a tag, an output or a comment. -/
def openings : List (List Char) :=
  [['{', '{'], ['{', '%'], ['{', '#']]

/-- Nothing in the text opens a tag, nor does its end with what follows. -/
structure Unmarked (content : List Char) : Prop where
  opening : ∀ start ∈ openings, ¬ start <:+: content
  last : content.getLast? ≠ some '{'

theorem unmarked_empty : Unmarked "".toList :=
  ⟨by decide, nofun⟩

theorem Unmarked.tail {c : Char} {content : List Char} (h : Unmarked (c :: content)) : Unmarked content := by
  refine ⟨fun start m i => h.opening start m (i.trans (List.suffix_cons c content).isInfix), fun e => h.last ?_⟩
  rw [List.getLast?_cons, e]
  rfl

/-- The nodes that a text can give: names are identifiers, a text is one that a body can hold, no two texts stand side
by side, and where a tag has to name something it does. -/
inductive Composable : Node → Prop
  | text {content : String} : content ≠ "" → Unmarked content.toList → Composable (.text content)
  | output {e : Expr} : Printable e → Composable (.output e)
  | branch {arms : List (Expr × List Node)} {otherwise : Option (List Node)} : arms ≠ [] →
    (∀ arm ∈ arms, Printable arm.1) → (∀ arm ∈ arms, Separate arm.2) → (∀ arm ∈ arms, ∀ n ∈ arm.2, Composable n) →
    (∀ body ∈ otherwise, Separate body) → (∀ body ∈ otherwise, ∀ n ∈ body, Composable n) →
    Composable (.branch arms otherwise)
  | inclusion {name : Expr} (ignoreMissing withContext : Bool) : Printable name →
    Composable (.inclusion name ignoreMissing withContext)
  | block {name : String} {body : List Node} : isIdentifier name → Separate body → (∀ n ∈ body, Composable n) →
    Composable (.block name body)
  | loop {targets : List String} {items : Expr} {body : List Node} {otherwise : Option (List Node)} : targets ≠ [] →
    (∀ name ∈ targets, isIdentifier name) → Printable items → Separate body → (∀ n ∈ body, Composable n) →
    (∀ body ∈ otherwise, Separate body) → (∀ body ∈ otherwise, ∀ n ∈ body, Composable n) →
    Composable (.loop targets items body otherwise)
  | assign {name : String} {value : Expr} : isIdentifier name → Printable value → Composable (.assign name value)
  | extend {parent : Expr} : Printable parent → Composable (.extend parent)
  | define {name : String} {params : List Param} {body : List Node} : isIdentifier name →
    (∀ p ∈ params, isIdentifier p.name) → (∀ p ∈ params, ∀ e ∈ p.default, Printable e) → Separate body →
    (∀ n ∈ body, Composable n) → Composable (.define name params body)
  | callBlock {params : List Param} {call : Expr} {body : List Node} : (∀ p ∈ params, isIdentifier p.name) →
    (∀ p ∈ params, ∀ e ∈ p.default, Printable e) → Printable call → Separate body → (∀ n ∈ body, Composable n) →
    Composable (.callBlock params call body)
  | filterBlock {name : String} {args : List Expr} {body : List Node} : isIdentifier name → (∀ e ∈ args, Printable e) →
    Separate body → (∀ n ∈ body, Composable n) → Composable (.filterBlock name args body)
  | importAs {template : Expr} {name : String} : Printable template → isIdentifier name →
    Composable (.importAs template name)
  | importFrom {template : Expr} {names : List (String × String)} : Printable template → names ≠ [] →
    (∀ pair ∈ names, isIdentifier pair.1 ∧ isIdentifier pair.2) → Composable (.importFrom template names)

/-- The text goes on with a tag or an output that has no dash, or it ends. -/
def Resumes (text : List Char) : Prop :=
  text = [] ∨ ∃ c rest, text = '{' :: c :: rest ∧ (c = '{' ∨ c = '%') ∧ rest.head? ≠ some '-'

theorem Resumes.split (h : Resumes text) : splitAtOpening text = ([], text) := by
  obtain rfl | ⟨c, rest, rfl, rfl | rfl, -⟩ := h
  · rfl
  · simp [splitAtOpening, atOpening]
  · simp [splitAtOpening, atOpening]

theorem splitAtOpening_of_unmarked {content : List Char} (hq : Unmarked content)
    (hr : splitAtOpening after = ([], after)) : splitAtOpening (content ++ after) = (content, after) := by
  induction content with
  | nil => exact hr
  | cons c content ih =>
    have here : atOpening (c :: (content ++ after)) = false := by
      cases content with
      | nil =>
        have : c ≠ '{' := by
          rintro rfl
          exact hq.last rfl
        unfold atOpening
        split
        · simp_all
        · rfl
      | cons d content =>
        unfold atOpening
        split
        · rename_i e
          obtain ⟨rfl, -⟩ := List.cons.inj (List.cons.inj e).2
          obtain rfl : c = '{' := (List.cons.inj e).1
          have start (x : Char) (m : ['{', x] ∈ openings) : d ≠ x := by
            rintro rfl
            exact hq.opening _ m ⟨[], content, rfl⟩
          simpa using And.intro (And.intro (start '{' (by decide)) (start '%' (by decide))) (start '#' (by decide))
        · rfl
    rw [List.cons_append, splitAtOpening, if_neg (by simp [here]), ih hq.tail]

namespace Parser

variable {bound : Nat}

/-! ### Texts, outputs and delimiters -/

theorem takes_text {content : String} (hq : Unmarked content.toList) (hr : Resumes after) :
    Takes Parser.text (content.toList ++ after) content after := by
  have dash : atTrimmedOpening after = false := by
    obtain rfl | ⟨c, rest, rfl, -, hd⟩ := hr
    · rfl
    · unfold atTrimmedOpening
      split
      · rename_i e
        cases e
        exact absurd rfl hd
      · rfl
  refine .rest ?_
  rw [splitAtOpening_of_unmarked hq hr.split]
  refine .goto ⟨fun position => ⟨position, ?_⟩⟩
  change Except.ok (String.ofList (if atTrimmedOpening after then _ else content.toList), _) = _
  rw [dash, if_neg nofun, String.ofList_toList]
  rfl

theorem takes_dash {c : Char} (hc : Text.isBlank c = true) : Takes (consume "-") (c :: text) false (c :: text) :=
  takes_consume_ne rfl fun e => ne_of_isBlank hc (by decide) (Option.some.inj e)

theorem takes_expectClose {close : String} {c : Char} {more : List Char} (hg : IsBlank gap)
    (hc : close.toList = c :: more) (hb : Text.isBlank c = false) (hd : c ≠ '-') :
    Takes (expectClose close) (gap ++ (close.toList ++ after)) () after := by
  have run : Takes (expect close) (close.toList ++ after) () after := takes_expect close
  rw [hc] at run ⊢
  refine (takes_skipBlank hg (isSolid_cons hb)).bind (.rest ?_)
  split
  · rename_i e
    exact absurd (List.cons.inj e).1 hd
  · exact run

theorem takes_outputTag {e : Expr} {chars : List Char} (h : At 0 chars e) (hne : gap ≠ []) (hg : IsBlank gap)
    (hb : (chars ++ ("\x7d\x7d".toList ++ after)).length < bound) :
    Takes (outputTag (expression bound)) ("\x7b\x7b".toList ++ (gap ++ (chars ++ ("\x7d\x7d".toList ++ after))))
    (.output e)
      after := by
  have closing : Stops 0 ("\x7d\x7d".toList ++ after) := stops_closing (by decide)
  have run := h.inside hg hb closing
  obtain ⟨c, gap, rfl⟩ := List.exists_cons_of_ne_nil hne
  have close : Takes (expectClose "\x7d\x7d") ([] ++ ("\x7d\x7d".toList ++ after)) () after :=
    takes_expectClose isBlank_nil rfl rfl nofun
  exact (takes_expect "\x7b\x7b").bind ((takes_dash (hg c List.mem_cons_self)).bind (run.bind (close.bind .pure)))

/-- The markup of an output, with blanks behind its opening delimiter. -/
theorem takes_markup_output {body : BodyParser} {e : Expr} {chars : List Char} (h : At 0 chars e) (hne : gap ≠ [])
    (hg : IsBlank gap) (hb : (chars ++ ("\x7d\x7d".toList ++ after)).length < bound) :
    Takes (markup body (expression bound) bound)
      ("\x7b\x7b".toList ++ (gap ++ (chars ++ ("\x7d\x7d".toList ++ after)))) (some (.output e)) after :=
  .no ⟨fun _ => ⟨_, rfl⟩⟩ (.yes ⟨fun _ => ⟨_, rfl⟩⟩ ((takes_outputTag h hne hg hb).bind .pure))

/-! ### Bodies -/

/-- The keywords of the tags that open a node. -/
def openingKeywords : List String :=
  ["if", "for", "include", "set", "block", "extends", "macro", "call", "filter", "import", "from"]

/-- The text of a node starts, whose keyword ends no body. -/
inductive Opens : List Char → Prop
  | output {gap rest : List Char} : gap ≠ [] → IsBlank gap → Opens ("\x7b\x7b".toList ++ (gap ++ rest))
  | tag {gap rest : List Char} {keyword : String} : keyword ∈ openingKeywords → gap ≠ [] → IsBlank gap → EndsWord rest →
    Opens ("\x7b%".toList ++ (gap ++ (keyword.toList ++ rest)))

/-- What ends a body: one of its tags, or the end of the text if it has none. -/
inductive EndsBody : List String → List Char → Option String → Prop
  | template : EndsBody [] [] none
  | tag {ends : List String} {gap rest : List Char} {keyword : String} :
    keyword ∈ ends → isIdentifier keyword → gap ≠ [] →
    IsBlank gap → EndsWord rest → EndsBody ends ("\x7b%".toList ++ (gap ++ (keyword.toList ++ rest))) (some keyword)

theorem head?_ne_of_isBlank {c : Char} (hne : gap ≠ []) (hg : IsBlank gap) (hc : Text.isBlank c = false) :
    (gap ++ text).head? ≠ some c := by
  obtain ⟨d, gap, rfl⟩ := List.exists_cons_of_ne_nil hne
  exact fun e => ne_of_isBlank (hg d List.mem_cons_self) hc (Option.some.inj e)

theorem tagKeyword?_of_isIdentifier {keyword : String} (hk : isIdentifier keyword) (hne : gap ≠ []) (hg : IsBlank gap)
    (hr : EndsWord after) : tagKeyword? ("\x7b%".toList ++ (gap ++ (keyword.toList ++ after))) = some keyword := by
  have dash : dropToken "-" (gap ++ (keyword.toList ++ after)) = gap ++ (keyword.toList ++ after) := by
    have other : startsWith "-" (gap ++ (keyword.toList ++ after)) = false :=
      startsWith_of_head? rfl (head?_ne_of_isBlank hne hg (by decide))
    have none : "-".toList.isPrefixOf? (gap ++ (keyword.toList ++ after)) = none := by
      rw [← Option.not_isSome_iff_eq_none, List.isSome_isPrefixOf?_eq_isPrefixOf]
      exact Bool.eq_false_iff.1 other
    rw [dropToken, none]
    rfl
  change (identifier? (dropToken "-" (gap ++ (keyword.toList ++ after)))).map (·.1) = _
  rw [dash, identifier?_of_isIdentifier hk hg hr]
  rfl

theorem resumes_of_isBlank {c : Char} (hc : c = '{' ∨ c = '%') (hne : gap ≠ []) (hg : IsBlank gap) :
    Resumes ('{' :: c :: (gap ++ after)) :=
  .inr ⟨c, gap ++ after, rfl, hc, head?_ne_of_isBlank hne hg (by decide)⟩

theorem Opens.resumes (h : Opens text) : Resumes text := by
  cases h with
  | output hne hg => exact (resumes_of_isBlank (.inl rfl) hne hg :)
  | tag _ hne hg => exact (resumes_of_isBlank (.inr rfl) hne hg :)

theorem EndsBody.resumes {ends : List String} {closing : Option String} (h : EndsBody ends text closing) :
    Resumes text := by
  cases h with
  | template => exact .inl rfl
  | tag _ _ hne hg => exact (resumes_of_isBlank (.inr rfl) hne hg :)

theorem Opens.tagKeyword? (h : Opens text) : ∀ keyword ∈ tagKeyword? text, keyword ∈ openingKeywords := by
  cases h with
  | output => rintro keyword ⟨⟩
  | @tag _ _ own hm hne hg hr =>
    have words : ∀ keyword ∈ openingKeywords, isIdentifier keyword := by decide
    rw [tagKeyword?_of_isIdentifier (words own hm) hne hg hr]
    rintro keyword ⟨⟩
    exact hm

/-- The node of a text, of which there is none where another node starts. -/
def leading (content : String) : List Node :=
  if content.isEmpty then [] else [.text content]

theorem takes_nodes_end {content : String} {ends : List String} {closing : Option String} (hq : Unmarked content.toList)
    (he : EndsBody ends after closing) :
    Takes (nodes (bound + 1) ends) (content.toList ++ after) (leading content, closing) after := by
  refine (takes_text hq he.resumes).bind ?_
  cases he with
  | template => exact ⟨fun _ => ⟨_, rfl⟩⟩
  | tag hm hk hne hg hr =>
    refine .no ⟨fun _ => ⟨_, rfl⟩⟩ (.rest ?_)
    rw [tagKeyword?_of_isIdentifier hk hne hg hr, Option.filter_some, if_pos (decide_eq_true hm)]
    exact .pure

theorem takes_nodes_cons {content : String} {ends : List String} {closing : Option String} {node : Node}
    {ns : List Node}
    {chars more : List Char} (hq : Unmarked content.toList) (ho : Opens (chars ++ more))
    (hends : ∀ keyword ∈ openingKeywords, keyword ∉ ends)
    (hn : Takes (markup (nodes bound) (expression (bound + 1)) (bound + 1)) (chars ++ more) (some node) more)
    (hm : Takes (nodes bound ends) more (ns, closing) after) :
    Takes (nodes (bound + 1) ends) (content.toList ++ (chars ++ more)) (leading content ++ node :: ns, closing)
    after := by
  have last : Takes atEnd (chars ++ more) false (chars ++ more) := by
    generalize chars ++ more = text at ho
    cases ho <;> exact ⟨fun _ => ⟨_, rfl⟩⟩
  have open? : (tagKeyword? (chars ++ more)).filter (· ∈ ends) = none := by
    rw [Option.filter_eq_none_iff]
    intro keyword m
    simpa using hends keyword (ho.tagKeyword? keyword m)
  refine (takes_text hq ho.resumes).bind (.no last (.rest ?_))
  rw [open?]
  have result : leading content ++ node :: ns = leading content ++ (some node).toList ++ ns := by simp
  rw [result]
  exact hn.bind (hm.bind .pure)

theorem opens_of_tag {keyword : String} {tokens : List Token} {more : List Piece} {chars : List Char}
    (hk : keyword ∈ openingKeywords) (hw : Composed (.tag keyword tokens :: more) chars) (rest : List Char) :
    Opens (chars ++ rest) := by
  obtain ⟨first, last, rfl, ht, -⟩ := composed_cons.1 hw
  cases ht with
  | tag hne hg ht =>
    obtain ⟨space, inside, hne', hs, -, rfl⟩ := written_word_cons ht
    have own := Opens.tag hk hne hg (endsWord_of_isBlank hs hne' :
      EndsWord (space ++ (inside ++ ("%\x7d".toList ++ (last ++ rest)))))
    simpa using own

theorem opens_of_composed {extra : Expr → Bool} {n : Node} (h : Composable n) (ht : n.isText = false)
    {chars : List Char}
    (hw : Composed (pieces extra n) chars) (rest : List Char) : Opens (chars ++ rest) := by
  cases h with
  | text => cases ht
  | output =>
    rw [pieces_output] at hw
    obtain ⟨first, last, rfl, hw, -⟩ := composed_cons.1 hw
    cases hw with
    | @output _ gap inside hne hg hw =>
      have own : Opens ("\x7b\x7b".toList ++ (gap ++ (inside ++ ("\x7d\x7d".toList ++ (last ++ rest))))) :=
        .output hne hg
      simpa using own
  | @branch arms otherwise hne =>
    obtain ⟨arm, arms, rfl⟩ := List.exists_cons_of_ne_nil hne
    rw [pieces, piecesOfArms] at hw
    exact opens_of_tag (by decide) hw rest
  | inclusion | block | loop | assign | extend | define | callBlock | filterBlock | importAs | importFrom =>
    rw [pieces] at hw
    exact opens_of_tag (by decide) hw rest

/-- The markup of the node is read as the node, wherever it stands. -/
def ReadsNode (extra : Expr → Bool) (n : Node) : Prop :=
  ∀ ⦃chars : List Char⦄, Composed (pieces extra n) chars → ∀ ⦃bound : Nat⦄ ⦃rest : List Char⦄,
    (chars ++ rest).length ≤ bound →
    Takes (markup (nodes bound) (expression (bound + 1)) (bound + 1)) (chars ++ rest) (some n) rest

/-- The body is read as the nodes, up to what ends it. -/
def ReadsBody (extra : Expr → Bool) (ns : List Node) : Prop :=
  ∀ ⦃chars : List Char⦄, Composed (piecesOfAll extra ns) chars →
    ∀ ⦃bound : Nat⦄ ⦃ends : List String⦄ ⦃rest : List Char⦄ ⦃closing : Option String⦄, EndsBody ends rest closing →
      (∀ keyword ∈ openingKeywords, keyword ∉ ends) → (chars ++ rest).length < bound →
      Takes (nodes bound ends) (chars ++ rest) (ns, closing) rest

section Bodies

variable {extra : Expr → Bool} {ns : List Node}

/-- A text in front of nodes that do not start with one is read together with the first of them. -/
theorem takes_nodes (hc : ∀ n ∈ ns, Composable n) (hs : Separate ns)
    (h : ∀ n ∈ ns, n.isText = false → ReadsNode extra n)
    {content : String} (hq : Unmarked content.toList) (hne : content ≠ "" → ∀ n ∈ ns.head?, n.isText = false)
    {chars : List Char} (hw : Composed (piecesOfAll extra ns) chars) {ends : List String} {closing : Option String}
    (he : EndsBody ends after closing) (hk : ∀ keyword ∈ openingKeywords, keyword ∉ ends)
    (hb : (chars ++ after).length < bound) :
    Takes (nodes bound ends) (content.toList ++ (chars ++ after)) (leading content ++ ns, closing) after := by
  induction ns generalizing content chars bound with
  | nil =>
    obtain ⟨bound, rfl⟩ := Nat.exists_eq_succ_of_ne_zero (by omega : bound ≠ 0)
    rw [piecesOfAll_nil] at hw
    cases hw
    rw [List.append_nil]
    exact takes_nodes_end hq he
  | cons n ns ih =>
    rw [piecesOfAll_cons] at hw
    obtain ⟨first, last, rfl, hf, hl⟩ := composed_append.1 hw
    obtain ⟨own, others⟩ := List.forall_mem_cons.1 hc
    obtain ⟨apart, separate⟩ := List.isChain_cons.1 hs
    have inner : ∀ n ∈ ns, n.isText = false → ReadsNode extra n := fun n m => h n (List.mem_cons_of_mem _ m)
    rw [List.append_assoc] at hb ⊢
    by_cases text : n.isText = true
    · -- nothing was read in front of the text, which is then what was read in front of the others
      have none : content = "" := by
        by_contra some
        rw [hne some n rfl] at text
        cases text
      cases own with
      | @text own some quiet =>
        have whole : leading own = [.text own] := by simp [leading, some]
        rw [pieces_text] at hf
        obtain ⟨_, _, rfl, hf, hnil⟩ := composed_cons.1 hf
        cases hf
        cases hnil
        rw [List.append_nil, List.length_append] at hb
        have run := ih others separate inner quiet (fun _ n m => apart n m rfl) hl
          (by omega : (last ++ after).length < bound)
        rw [whole] at run
        rw [none, List.append_nil]
        exact run
      | _ => cases text
    · have other : n.isText = false := Bool.eq_false_iff.2 text
      have opens := opens_of_composed own other hf
      have some : first ≠ [] := by
        rintro rfl
        cases opens []
      have := List.length_pos_iff.2 some
      obtain ⟨bound, rfl⟩ := Nat.exists_eq_succ_of_ne_zero (by omega : bound ≠ 0)
      rw [List.length_append] at hb
      have more : Takes (nodes bound ends) (last ++ after) (ns, closing) after :=
        ih others separate inner unmarked_empty (fun n => absurd rfl n) hl (by omega : (last ++ after).length < bound)
      have fits : (first ++ (last ++ after)).length ≤ bound := by
        rw [List.length_append]
        omega
      have markup := h n List.mem_cons_self other hf fits
      exact takes_nodes_cons hq (opens (last ++ after)) hk markup more

theorem readsBody (hc : ∀ n ∈ ns, Composable n) (hs : Separate ns)
    (h : ∀ n ∈ ns, n.isText = false → ReadsNode extra n) :
    ReadsBody extra ns :=
  fun _ hw _ _ _ _ he hk hb => takes_nodes hc hs h unmarked_empty (fun n => absurd rfl n) hw he hk hb

/-- A template is a body that the end of the text ends. -/
theorem parse_of_readsBody (h : ReadsBody extra ns) {chars : List Char} (hw : Composed (piecesOfAll extra ns) chars) :
    parse (String.ofList chars) = .ok ns := by
  have enough : (chars ++ []).length < chars.length + 1 := by simp
  obtain ⟨behind, run⟩ := (h hw .template (fun _ _ => nofun) enough).run .start
  rw [List.append_nil] at run
  rw [parse, String.toList_ofList, run]
  rfl

end Bodies

theorem readsNode_output {extra : Expr → Bool} {e : Expr} (hp : Printable e) : ReadsNode extra (.output e) := by
  intro chars hw bound rest hb
  rw [pieces_output] at hw
  obtain ⟨_, _, rfl, own, hnil⟩ := composed_cons.1 hw
  cases hnil
  cases own with
  | @output _ gap inside hne hg hi =>
    have whole : "\x7b\x7b".toList ++ (gap ++ (inside ++ "\x7d\x7d".toList)) ++ [] ++ rest =
        "\x7b\x7b".toList ++ (gap ++ (inside ++ ("\x7d\x7d".toList ++ rest))) := by simp
    rw [whole] at hb ⊢
    have shorter : (inside ++ ("\x7d\x7d".toList ++ rest)).length < bound + 1 := by
      simp only [List.length_append] at hb ⊢
      omega
    exact takes_markup_output (takes_tokensAt hp (by decide) hi) hne hg shorter

/-- An output that stands by itself, whatever the text of its expression. -/
theorem parse_output {e : Expr} {chars : List Char} (h : At 0 chars e) (hne : gap ≠ []) (hg : IsBlank gap) :
    parse (String.ofList ("\x7b\x7b".toList ++ (gap ++ (chars ++ "\x7d\x7d".toList)))) = .ok [.output e] := by
  generalize same : "\x7b\x7b".toList ++ (gap ++ (chars ++ "\x7d\x7d".toList)) = source
  have whole : source ++ [] = "\x7b\x7b".toList ++ (gap ++ (chars ++ ("\x7d\x7d".toList ++ []))) := by
    rw [← same, List.append_nil, List.append_nil]
  obtain ⟨bound, length⟩ : ∃ bound, source.length = bound + 1 :=
    Nat.exists_eq_succ_of_ne_zero (by rw [← same]; simp)
  have shorter : (chars ++ ("\x7d\x7d".toList ++ [])).length < bound + 1 + 1 := by
    rw [← same] at length
    simp only [List.append_nil, List.length_append] at length ⊢
    omega
  have tag : Takes (markup (nodes (bound + 1)) (expression (bound + 1 + 1)) (bound + 1 + 1)) (source ++ [])
      (some (.output e)) [] := by
    rw [whole]
    exact takes_markup_output h hne hg shorter
  have opens : Opens (source ++ []) := whole ▸ .output hne hg
  have closed : Takes (nodes (bound + 1) []) ("".toList ++ []) (leading "", none) [] :=
    takes_nodes_end unmarked_empty .template
  obtain ⟨behind, run⟩ := (takes_nodes_cons unmarked_empty opens (fun _ _ => List.not_mem_nil) tag closed).run .start
  rw [String.toList_empty, List.nil_append, List.append_nil] at run
  rw [parse, String.toList_ofList, length, run]
  rfl

end Parser

/-! ### Expressions -/

/-- No parentheses but those that an operator needs. -/
def needed : Expr → Bool :=
  fun _ => false

/-- An expression with no parentheses but those it needs is read as it was, with any blanks between its tokens and next
to the delimiters; one such text has a blank at each of these places. -/
theorem parse_output_of_written {e : Expr} (h : Printable e) : Written (tokens needed e) (spelled (tokens needed e)) ∧
    ∀ {gap chars : List Char}, gap ≠ [] → IsBlank gap → Written (tokens needed e) chars →
      parse (String.ofList ("\x7b\x7b".toList ++ (gap ++ (chars ++ "\x7d\x7d".toList)))) = .ok [.output e] := by
  refine ⟨written_spelled (plain_tokens h).spelt, fun {gap chars} hne hg hw => ?_⟩
  have piece : Composed (piecesOfAll needed [.output e])
    ("\x7b\x7b".toList ++ (gap ++ (chars ++ "\x7d\x7d".toList)) ++ []) := by
    rw [piecesOfAll_cons, piecesOfAll_nil, pieces_output]
    exact .cons (.output hne hg hw) .nil
  have body : Parser.ReadsBody needed [.output e] := by
    refine Parser.readsBody (List.forall_mem_singleton.2 (.output h)) (List.isChain_singleton _) ?_
    exact List.forall_mem_singleton.2 fun _ => Parser.readsNode_output h
  rw [← List.append_nil (_ ++ _)]
  exact Parser.parse_of_readsBody body piece

/-- The sum needs its parentheses on the left of a product, and the inline `if` on the left of a filter. -/
theorem parse_output_of_nested :
    let e : Expr := .inlineIf (.binary .mul (.binary .add (.var "a") (.var "b")) (.neg (.var "c")))
      (.not (.compare .notIn (.var "x") (.list [.literal (.int 1), .literal (.string "q\"s")])))
      (some (.filter "first" (.inlineIf (.var "y") (.var "z") none) []))
    Printable e ∧ parse "\x7b\x7b ( a + b ) * - c if not x not in [ 1 , \"q\\\"s\" ] else ( y if z ) | first ( ) \x7d\x7d" =
      .ok [.output e] := by
  intro e
  have var (name : String) (h : isIdentifier name ∧ name ∉ reserved) : Printable (.var name) := .var h.1 h.2
  have product : Printable (.binary .mul (.binary .add (.var "a") (.var "b")) (.neg (.var "c"))) :=
    .binary _ (.binary _ (var "a" (by decide)) (var "b" (by decide))) (.neg (var "c" (by decide)))
  have items : ∀ e ∈ [Expr.literal (.int 1), .literal (.string "q\"s")], Printable e := by
    rintro e (_ | ⟨_, _ | ⟨_, ⟨⟩⟩⟩)
    · exact .int (by decide)
    · exact .string _
  have inner : Printable (.inlineIf (.var "y") (.var "z") none) :=
    .inlineIf (var "y" (by decide)) (var "z" (by decide)) nofun
  have printable : Printable e := by
    refine .inlineIf product (.not (.compare _ (var "x" (by decide)) (.list items))) ?_
    rintro e ⟨⟩
    exact .filter (by decide) inner nofun
  have blank : IsBlank [' '] := List.forall_mem_singleton.2 (by decide)
  have text : "\x7b\x7b ( a + b ) * - c if not x not in [ 1 , \"q\\\"s\" ] else ( y if z ) | first ( ) \x7d\x7d" =
      String.ofList ("\x7b\x7b".toList ++ ([' '] ++ (spelled (tokens needed e) ++ "\x7d\x7d".toList))) := by
    rw [← String.toList_inj, String.toList_ofList, String.toList_ofList]
    rfl
  rw [text]
  exact ⟨printable, (parse_output_of_written printable).2 nofun blank (parse_output_of_written printable).1⟩

end Template

end Folio
