import Folio.Proofs.Template.Swapping
import Folio.Proofs.Template.Verbatim

/-! Whitespace control. Texts and markup stand in turn, and the markup may have a dash at either end. A dash takes the
blanks off the text next to it, and does nothing else: what the markup is read as and where it ends are the same without
it. -/
namespace Folio.Template

variable {text after inside content : List Char}

/-! ### Markup that is read by itself -/

/-- A text with blanks next to both delimiters. -/
structure Padded (inside : List Char) : Prop where
  first : inside.head?.any Text.isBlank = true
  last : inside.getLast?.any Text.isBlank = true

theorem Padded.spaced (h : Padded inside) : Spaced inside := by
  intro c m
  have last := h.last
  rw [Option.mem_def.1 m] at last
  exact last

theorem Padded.exists_cons (h : Padded inside) : ∃ c rest, inside = c :: rest ∧ Text.isBlank c = true := by
  cases inside with
  | nil => cases h.first
  | cons c rest => exact ⟨c, rest, rfl, h.first⟩

theorem Padded.head?_ne (h : Padded inside) : (inside ++ after).head? ≠ some '-' := by
  obtain ⟨c, rest, rfl, blank⟩ := h.exists_cons
  exact fun e => ne_of_isBlank blank (by decide) (Option.some.inj e)

theorem Padded.endsWord (h : Padded inside) : EndsWord (inside ++ after) := by
  obtain ⟨c, rest, rfl, blank⟩ := h.exists_cons
  have ends : EndsWord ([c] ++ (rest ++ after)) :=
    endsWord_of_isBlank (List.forall_mem_singleton.2 blank) (List.cons_ne_nil c [])
  exact ends

/-- The text ends with a brace that ends no comment. -/
structure EndsTag (text : List Char) : Prop where
  brace : text.getLast? = some '}'
  comment : ¬ ['#', '}'] <:+ text

theorem EndsTag.of_suffix (h : EndsTag text) (s : after <:+ text) (ne : after ≠ []) : EndsTag after where
  brace := by
    obtain ⟨passed, rfl⟩ := s
    rw [← h.brace, List.getLast?_append_of_ne_nil passed ne]
  comment s' := h.comment (s'.trans s)

theorem endsTag_append {close : String} (m : close ∈ Parser.closers) (text : List Char) :
    EndsTag (text ++ close.toList) := by
  have ending {tag : List Char} (s : tag <:+ text ++ close.toList) (le : tag.length ≤ close.toList.length) :
      tag <:+ close.toList :=
    List.suffix_of_suffix_length_le s (List.suffix_append text _) le
  rcases List.mem_pair.1 m with rfl | rfl
  · exact ⟨by simp, fun s => absurd (ending s le_rfl) (by decide)⟩
  · exact ⟨by simp, fun s => absurd (ending s le_rfl) (by decide)⟩

/-- Trimming leaves nothing of blanks only. -/
theorem isBlank_of_clip {left right : Bool} (e : clip left right content = []) : IsBlank content := by
  have start (h : IsBlank (Text.trimStart content)) : IsBlank content := by
    rw [← List.takeWhile_append_dropWhile (p := Text.isBlank) (l := content)]
    exact List.forall_mem_append.2 ⟨fun _ => List.mem_takeWhile_imp, h⟩
  have ending {text : List Char} (e : (if right then Text.trimEnd text else text) = []) : IsBlank text := by
    cases right with
    | false =>
      obtain rfl : text = [] := e
      exact isBlank_nil
    | true =>
      have blank := List.dropWhile_eq_nil_iff.1 (List.reverse_eq_nil_iff.1 e)
      exact fun c m => blank c (List.mem_reverse.2 m)
  cases left with
  | false => exact ending e
  | true => exact start (ending e)

namespace Parser

variable {α β : Type} {bound : Nat} {body : BodyParser} {inner : Parser Expr} {cursor next : Cursor}

theorem leading_eq_nil_iff : leading (String.ofList content) = [] ↔ content = [] := by
  have empty : (String.ofList content).isEmpty = true ↔ content = [] := by simp [String.isEmpty_iff]
  rw [leading, ← empty]
  split <;> simp_all

theorem exists_of_text {s : String} (run : Parser.text cursor = .ok (s, next)) :
    ∃ content right, content ++ next.rest = cursor.rest ∧ s = String.ofList (clip cursor.trimNext right content) := by
  have reads : Passes Parser.text cursor.trimNext cursor.rest _ false _ := passes_text rfl
  obtain ⟨behind, run'⟩ := reads cursor.position
  obtain ⟨rfl, rfl⟩ := Prod.mk.inj (Except.ok.inj (run.symm.trans run'))
  exact ⟨_, _, splitAtOpening_append cursor.rest, rfl⟩

/-- Only a comment has no node. -/
theorem exists_of_markup_none (run : markup body inner bound cursor = .ok (none, next)) :
    ∃ passed, passed ++ '#' :: '}' :: next.rest = cursor.rest := by
  obtain ⟨_, _, peeked, run⟩ := exists_of_bind run
  cases peeked
  split at run
  · obtain ⟨_, _, read, run⟩ := exists_of_bind run
    cases run
    obtain ⟨_, opened, opening, read⟩ := exists_of_bind read
    obtain ⟨_, _, ahead, read⟩ := exists_of_bind read
    cases ahead
    cases found : afterComment opened.rest with
    | none =>
      rw [found] at read
      cases read
    | some ended =>
      obtain ⟨trim, after⟩ := ended
      rw [found] at read
      have rest : next.rest = after := by cases trim <;> cases read <;> rfl
      obtain ⟨passed, cut⟩ := afterComment_close found
      exact ⟨"\x7b#".toList ++ passed, by rw [List.append_assoc, rest, cut, rest_of_expect_token opening]⟩
  · obtain ⟨_, _, peeked, run⟩ := exists_of_bind run
    cases peeked
    split at run
    · obtain ⟨_, _, -, run⟩ := exists_of_bind run
      cases run
    · obtain ⟨_, _, -, run⟩ := exists_of_bind run
      cases run

/-- A text that ends with a brace of no comment has a node. -/
theorem nodes_ne_nil {closing : Option String} {last : Cursor} (h : EndsTag cursor.rest) :
    nodes bound [] cursor ≠ .ok (([], closing), last) := by
  induction bound generalizing cursor with
  | zero => exact nofun
  | succ bound ih =>
    intro run
    obtain ⟨content, between, read, place⟩ := exists_of_nodes run
    obtain ⟨chars, right, cut, rfl⟩ := exists_of_text read
    rcases place with ⟨ended, -, empty⟩ | ⟨-, node, behind, more, tag, rest, empty⟩
    · rw [ended, List.append_nil] at cut
      have blank := isBlank_of_clip (leading_eq_nil_iff.1 empty.symm)
      rw [cut] at blank
      exact absurd (blank _ (List.mem_of_getLast? h.brace)) (by decide)
    · obtain ⟨front, rfl⟩ := List.append_eq_nil_iff.1 empty.symm
      obtain rfl := Option.toList_eq_nil_iff.1 (List.append_eq_nil_iff.1 front).2
      obtain ⟨passed, cut'⟩ := exists_of_markup_none tag
      rw [← cut', ← List.append_assoc] at cut
      by_cases ne : behind.rest = []
      · rw [ne] at cut
        exact h.comment ⟨chars ++ passed, cut⟩
      · have s : behind.rest <:+ cursor.rest := ⟨chars ++ passed ++ ['#', '}'], by rw [← cut]; simp⟩
        exact ih (h.of_suffix s ne) rest

/-- What is read behind the opening of a template that is one piece of markup, and leaves nothing that has a node. -/
theorem exists_of_alone {p : Parser Node} {node : Node} (parsed : parse (String.ofList text) = .ok [node])
    (split : splitAtOpening text = ([], text)) (ne : text ≠ [])
    (leads : LeadsTo (markup (nodes text.length) (expression (text.length + 1)) (text.length + 1)) text
      (do return some (← p)) after) :
    ∃ (position : Position) (last : Cursor), p { rest := after, trimNext := false, position } = .ok (node, last) ∧
      ¬ EndsTag last.rest := by
  obtain ⟨_, _, run⟩ := exists_of_parse parsed
  rw [String.toList_ofList] at run
  obtain ⟨content, between, read, place⟩ := exists_of_nodes run
  have reads : Passes Parser.text false text _ false text := passes_text split
  obtain ⟨behind, run'⟩ := reads .start
  obtain ⟨rfl, rfl⟩ := Prod.mk.inj (Except.ok.inj (read.symm.trans run'))
  have empty : leading (String.ofList (clip false (atTrimmedOpening text) [])) = [] := by
    cases atTrimmedOpening text <;> rfl
  rw [empty] at place
  rcases place with ⟨ended, -⟩ | ⟨-, found, last, more, tag, rest, same⟩
  · exact absurd ended ne
  · obtain ⟨start, eq⟩ := leads behind
    obtain ⟨node', _, read, found⟩ := exists_of_bind (eq.symm.trans tag)
    cases found
    obtain ⟨rfl, rfl⟩ := List.cons.inj same
    exact ⟨start, _, read, fun h => nodes_ne_nil h rest⟩

/-- What stands in front of a closing delimiter, as a node. -/
def enclosed (close : String) (p : Parser β) (f : β → Node) : Parser Node := do
  let value ← p
  expectClose close
  return f value

/-- What is read up to a delimiter that ends the text is read up to the same delimiter with a dash. -/
theorem passes_enclosed {p q : Parser β} {f : β → Node} {close : String} (m : close ∈ closers)
    (swaps : ∀ other, Replaces close.toList other → Swaps close.toList other p q) (hx : Spaced inside)
    {position : Position} {node : Node} {last : Cursor}
    (run : enclosed close p f { rest := inside ++ close.toList, trimNext := false, position } = .ok (node, last))
    (ends : ¬ EndsTag last.rest) (closing : Bool) (after : List Char) :
    Passes (enclosed close q f) false (inside ++ (dash closing ++ (close.toList ++ after))) node closing after := by
  obtain ⟨value, next, read, run⟩ := exists_of_bind run
  obtain ⟨_, _, closed, run⟩ := exists_of_bind run
  cases run
  obtain ⟨gap, present, cut⟩ := exists_of_expectClose closed
  have replaces := replaces_of_mem_closers m closing after
  obtain ⟨-, lost | ⟨left, s, e, takes⟩⟩ := (swaps _ replaces).near inside hx position value next read
  · have short := lost.length_le
    have long : close.toList.length = 2 := by rcases List.mem_pair.1 m with rfl | rfl <;> rfl
    rw [← cut, List.length_append, List.length_append, List.length_append, long, List.length_singleton] at short
    omega
  · rw [e, ← List.append_assoc, ← List.append_assoc] at cut
    have done : last.rest = [] := by
      by_contra ne
      exact ends ((endsTag_append m left).of_suffix ⟨_, cut⟩ ne)
    rw [done, List.append_nil, List.append_left_inj] at cut
    cases present with
    | true => exact absurd ((hx.of_suffix s) '-' (by simp [← cut, dash])) (by decide)
    | false =>
      obtain rfl : gap.1 = left := (List.append_nil _).symm.trans cut
      exact (Passes.of_takes takes).bind ((passes_expectClose m gap closing).bind .pure)

/-! ### Outputs and assignments -/

theorem leadsTo_output (opening : Bool) (h : text.head? ≠ some '-') :
    LeadsTo (markup body inner bound) ("\x7b\x7b".toList ++ (dash opening ++ text))
      (do return some (← enclosed "\x7d\x7d" inner Node.output)) text := by
  have delimiter : LeadsTo (outputTag inner) _ (enclosed "\x7d\x7d" inner Node.output) text :=
    ((takes_expect "\x7b\x7b").run_bind _).trans ((takes_consume_dash opening h).run_bind _)
  have comment : Takes (peek "\x7b#") ("\x7b\x7b".toList ++ (dash opening ++ text)) false _ := ⟨fun _ => ⟨_, rfl⟩⟩
  have output : Takes (peek "\x7b\x7b") ("\x7b\x7b".toList ++ (dash opening ++ text)) true _ := ⟨fun _ => ⟨_, rfl⟩⟩
  exact (comment.run_bind _).trans ((output.run_bind _).trans delimiter.bind)

/-- A name and the value that it is given. -/
def assignment (inner : Parser Expr) : Parser (String × Expr) := do
  let name ← identifier
  skipBlank
  expect "="
  let value ← inner
  return (name, value)

theorem assignTag_eq (inner : Parser Expr) :
    assignTag inner = enclosed "%\x7d" (assignment inner) fun pair => .assign pair.1 pair.2 := by
  simp only [assignTag, enclosed, assignment, bind_assoc, pure_bind]

theorem leadsTo_assignment (opening : Bool) (before : Gap) (ends : EndsWord text) :
    LeadsTo (markup body inner bound) ("\x7b%".toList ++ (dash opening ++ (before.1 ++ ("set".toList ++ text))))
      (do return some (← enclosed "%\x7d" (assignment inner) fun pair => .assign pair.1 pair.2)) text := by
  have keyword : Takes openTag _ "set" text := takes_openTag_of_tag (by decide) opening before ends
  have delimiter : LeadsTo (tag body inner bound) _ (assignTag inner) text := .get fun _ => keyword.run_bind _
  rw [assignTag_eq] at delimiter
  exact leadsTo_markup_tag delimiter

theorem swaps_assignment {close other : List Char} (h : Replaces close other) {inner inner' : Parser Expr}
    (hi : Swaps close other inner inner') : Swaps close other (assignment inner) (assignment inner') :=
  (swaps_identifier h).bind fun _ => (swaps_skipBlank h).bind fun _ =>
    (swaps_expect h (by decide) (by decide)).bind fun _ => hi.bind fun _ => .pure

theorem passes_output {node : Node} (padded : Padded inside)
    (alone : parse (String.ofList ("\x7b\x7b".toList ++ (inside ++ "\x7d\x7d".toList))) = .ok [node])
    (hb : ("\x7b\x7b".toList ++ (inside ++ "\x7d\x7d".toList)).length < bound) (opening closing : Bool)
    (after : List Char) :
    Passes (markup body (expression bound) bound) false
      ("\x7b\x7b".toList ++ (dash opening ++ (inside ++ (dash closing ++ ("\x7d\x7d".toList ++ after))))) (some node)
      closing after := by
  obtain ⟨position, last, run, ends⟩ := exists_of_alone alone rfl nofun (leadsTo_output false padded.head?_ne)
  have swaps (other) (h : Replaces "\x7d\x7d".toList other) := swaps_expression h hb
  have enclosed := passes_enclosed (by decide) swaps padded.spaced run ends closing after
  exact .of_leadsTo (leadsTo_output opening padded.head?_ne) (enclosed.bind .pure)

theorem passes_assignment {before : Gap} {node : Node} (padded : Padded inside)
    (alone : parse (String.ofList ("\x7b%".toList ++ (before.1 ++ ("set".toList ++ (inside ++ "%\x7d".toList))))) =
      .ok [node])
    (hb : ("\x7b%".toList ++ (before.1 ++ ("set".toList ++ (inside ++ "%\x7d".toList)))).length < bound)
    (opening closing : Bool) (after : List Char) :
    Passes (markup body (expression bound) bound) false
      ("\x7b%".toList ++ (dash opening ++ (before.1 ++ ("set".toList ++ (inside ++ (dash closing ++
        ("%\x7d".toList ++ after))))))) (some node) closing after := by
  obtain ⟨position, last, run, ends⟩ :=
    exists_of_alone alone rfl nofun (leadsTo_assignment false before padded.endsWord)
  have swaps (other) (h : Replaces "%\x7d".toList other) := swaps_assignment h (swaps_expression h hb)
  have enclosed := passes_enclosed (by decide) swaps padded.spaced run ends closing after
  exact .of_leadsTo (leadsTo_assignment opening before padded.endsWord) (enclosed.bind .pure)

/-! ### Comments -/

/-- The comment ends at the first of its closing delimiters, to which a dash in front of that belongs. -/
theorem afterComment_append (inner : ¬ ['#', '}'] <:+: content) (last : content.getLast? ≠ some '-')
    (closing : Bool) (after : List Char) :
    afterComment (content ++ (dash closing ++ ('#' :: '}' :: after))) = some (closing, after) := by
  induction content with
  | nil => cases closing <;> rfl
  | cons c content ih =>
    have head (rest : List Char) : dash closing ++ '#' :: '}' :: after ≠ '}' :: rest := by
      cases closing <;> exact nofun
    have ih := ih (fun i => inner (i.trans (List.suffix_cons c content).isInfix)) fun e => last (by
      rw [List.getLast?_cons, e]
      rfl)
    rw [List.cons_append, afterComment, ih]
    · rintro rest rfl e
      rcases content with _ | ⟨first, _ | ⟨second, content⟩⟩
      · exact last rfl
      · exact head rest (List.cons.inj e).2
      · obtain ⟨rfl, e'⟩ := List.cons.inj e
        obtain ⟨rfl, -⟩ := List.cons.inj e'
        exact inner ⟨['-'], content, rfl⟩
    · rintro rest rfl e
      cases content with
      | nil => exact head rest e
      | cons d content =>
        obtain ⟨rfl, -⟩ := List.cons.inj e
        exact inner ⟨[], content, rfl⟩

end Parser

/-- What a comment says: not nothing, and nothing that ends the comment, or begins or ends with a dash. -/
structure Remark (body : List Char) : Prop where
  ne : body ≠ []
  inner : ¬ ['#', '}'] <:+: body
  first : body.head? ≠ some '-'
  last : body.getLast? ≠ some '-'

namespace Parser

variable {bound : Nat} {body : BodyParser} {inner : Parser Expr}

theorem passes_comment {remark : List Char} (h : Remark remark) (opening closing : Bool) (after : List Char) :
    Passes (markup body inner bound) false
      ("\x7b#".toList ++ (dash opening ++ (remark ++ (dash closing ++ ("#\x7d".toList ++ after))))) none closing
      after := by
  have found : afterComment (dash opening ++ (remark ++ (dash closing ++ ("#\x7d".toList ++ after)))) =
      some (closing, after) := by
    rw [← List.append_assoc]
    refine afterComment_append (fun i => h.inner ?_) ?_ closing after
    · cases opening with
      | false => exact i
      | true => exact (List.infix_cons_iff.1 i).resolve_left nofun
    · rw [List.getLast?_append_of_ne_nil _ h.ne]
      exact h.last
  generalize dash opening ++ (remark ++ (dash closing ++ ("#\x7d".toList ++ after))) = text at found ⊢
  have peeked : Passes (peek "\x7b#") false ("\x7b#".toList ++ text) true false ("\x7b#".toList ++ text) :=
    fun _ => ⟨_, rfl⟩
  have read : Passes comment false ("\x7b#".toList ++ text) () closing after := by
    refine (Passes.of_takes (takes_expect "\x7b#")).bind (.rest ?_)
    rw [found]
    refine .goto ?_
    cases closing with
    | false => exact .pure
    | true => exact fun _ => ⟨_, rfl⟩
  exact peeked.bind (read.bind .pure)

end Parser

/-! ### Texts and markup in turn -/

/-- Markup that stands between texts: an output or an assignment that is a template by itself, with blanks next to its
delimiters, a comment or a raw block. Its delimiters may have dashes. -/
inductive Markup where
  | output (opening closing : Bool) (inside : List Char) (node : Node) (padded : Padded inside)
    (alone : parse (String.ofList ("\x7b\x7b".toList ++ (inside ++ "\x7d\x7d".toList))) = .ok [node])
  | assignment (opening closing : Bool) (before : Gap) (inside : List Char) (node : Node) (padded : Padded inside)
    (alone : parse (String.ofList ("\x7b%".toList ++ (before.1 ++ ("set".toList ++ (inside ++ "%\x7d".toList))))) =
      .ok [node])
  | comment (opening closing : Bool) (body : List Char) (remark : Remark body)
  | raw (start ending : KeywordTag) (content : List Char) (unended : Unended content)

namespace Markup

/-- The dash of the first delimiter. -/
def opening : Markup → Bool
  | output opening .. => opening
  | assignment opening .. => opening
  | comment opening .. => opening
  | raw start .. => start.opening

/-- The dash of the last delimiter. -/
def closing : Markup → Bool
  | output _ closing .. => closing
  | assignment _ closing .. => closing
  | comment _ closing .. => closing
  | raw _ ending .. => ending.closing

def chars : Markup → List Char
  | output opening closing inside .. =>
    "\x7b\x7b".toList ++ (dash opening ++ (inside ++ (dash closing ++ "\x7d\x7d".toList)))
  | assignment opening closing before inside .. =>
    "\x7b%".toList ++ (dash opening ++ (before.1 ++ ("set".toList ++ (inside ++ (dash closing ++ "%\x7d".toList)))))
  | comment opening closing body _ =>
    "\x7b#".toList ++ (dash opening ++ (body ++ (dash closing ++ "#\x7d".toList)))
  | raw start ending content _ => start.chars "raw" ++ (content ++ ending.chars "endraw")

/-- The node of the markup, where the text of a raw block is cut on the sides on which its inner delimiters have
dashes. -/
def node? (cut : Bool → Bool → List Char → List Char) : Markup → Option Node
  | output _ _ _ node .. => some node
  | assignment _ _ _ _ node .. => some node
  | comment .. => none
  | raw start ending content _ => some (.text (String.ofList (cut start.closing ending.opening content)))

/-- The same markup without dashes. -/
def plain : Markup → Markup
  | output _ _ inside node padded alone => output false false inside node padded alone
  | assignment _ _ before inside node padded alone => assignment false false before inside node padded alone
  | comment _ _ body remark => comment false false body remark
  | raw start ending content unended =>
    raw { start with opening := false, closing := false } { ending with opening := false, closing := false } content
      unended

theorem split (markup : Markup) (after : List Char) :
    splitAtOpening (markup.chars ++ after) = ([], markup.chars ++ after) := by
  cases markup <;> rfl

theorem ne_nil (markup : Markup) (after : List Char) : markup.chars ++ after ≠ [] := by
  cases markup <;> exact nofun

theorem atTrimmedOpening (markup : Markup) (after : List Char) :
    atTrimmedOpening (markup.chars ++ after) = markup.opening := by
  cases markup with
  | output opening closing inside node padded alone =>
    simp only [chars, List.append_assoc]
    exact Parser.atTrimmedOpening_dash (.inl rfl) opening padded.head?_ne
  | assignment opening closing before inside node padded alone =>
    simp only [chars, List.append_assoc]
    exact Parser.atTrimmedOpening_dash (.inr (.inl rfl)) opening (head?_gap_ne (by decide) before)
  | comment opening closing body remark =>
    obtain ⟨c, rest, rfl⟩ := List.exists_cons_of_ne_nil remark.ne
    simp only [chars, List.append_assoc]
    exact Parser.atTrimmedOpening_dash (.inr (.inr rfl)) opening remark.first
  | raw start ending content unended =>
    rw [chars, List.append_assoc]
    exact Parser.atTrimmedOpening_keywordTag (by decide) start _

variable {bound : Nat} {body : Parser.BodyParser}

/-- The markup is read as its node, and leaves it to the next text to be trimmed. -/
theorem passes (markup : Markup) (hb : markup.chars.length < bound) (after : List Char) :
    Parser.Passes (Parser.markup body (Parser.expression bound) bound) false (markup.chars ++ after) (markup.node? clip)
      markup.closing after := by
  cases markup with
  | output opening closing inside node padded alone =>
    simp only [chars, List.append_assoc, List.length_append] at hb ⊢
    exact Parser.passes_output padded alone (by simp only [List.length_append]; omega) opening closing after
  | assignment opening closing before inside node padded alone =>
    simp only [chars, List.append_assoc, List.length_append] at hb ⊢
    exact Parser.passes_assignment padded alone (by simp only [List.length_append]; omega) opening closing after
  | comment opening closing body remark =>
    simp only [chars, List.append_assoc]
    exact Parser.passes_comment remark opening closing after
  | raw start ending content unended =>
    simp only [chars, List.append_assoc]
    exact Parser.passes_markup_raw start ending unended

end Markup

/-- A text that opens no markup, also with what follows. -/
abbrev Prose := { content : List Char // Unmarked content }

/-- A text, and then markup with a text behind each. -/
structure Passage where
  first : Prose
  rest : List (Markup × Prose)

namespace Passage

def charsOf : List (Markup × Prose) → List Char
  | [] => []
  | (markup, text) :: rest => markup.chars ++ (text.1 ++ charsOf rest)

def chars (passage : Passage) : List Char :=
  passage.first.1 ++ charsOf passage.rest

/-- The nodes of a text and of what follows it. A text is cut on the sides on which the markup next to it has dashes,
and has no node if nothing is left of it. -/
def nodesOf (cut : Bool → Bool → List Char → List Char) (left : Bool) (text : List Char) :
    List (Markup × Prose) → List Node
  | [] => Parser.leading (String.ofList (cut left false text))
  | (markup, next) :: rest =>
    Parser.leading (String.ofList (cut left markup.opening text)) ++ (markup.node? cut).toList ++
      nodesOf cut markup.closing next.1 rest

def nodes (cut : Bool → Bool → List Char → List Char) (passage : Passage) : List Node :=
  nodesOf cut false passage.first.1 passage.rest

/-- The same texts and the same markup, without dashes. -/
def plain (passage : Passage) : Passage where
  first := passage.first
  rest := passage.rest.map (Prod.map Markup.plain id)

/-- From a text on, the parser reads the nodes of the passage. -/
theorem passes_nodes {bound : Nat} (left : Bool) (text : Prose) (rest : List (Markup × Prose))
    (hb : (text.1 ++ charsOf rest).length < bound) :
    Parser.Passes (Parser.nodes bound []) left (text.1 ++ charsOf rest) (nodesOf clip left text.1 rest, none) false
      [] := by
  induction rest generalizing bound left text with
  | nil =>
    obtain ⟨bound, rfl⟩ := Nat.exists_eq_succ_of_ne_zero (Nat.ne_zero_of_lt hb)
    exact Parser.passes_nodes_end (splitAtOpening_of_unmarked text.2 rfl)
  | cons piece rest ih =>
    obtain ⟨markup, next⟩ := piece
    obtain ⟨bound, rfl⟩ := Nat.exists_eq_succ_of_ne_zero (Nat.ne_zero_of_lt hb)
    have some : 0 < markup.chars.length := by
      have ne := markup.ne_nil []
      rw [List.append_nil] at ne
      exact List.length_pos_iff.2 ne
    simp only [charsOf, List.length_append] at hb ⊢
    have shorter : (next.1 ++ charsOf rest).length < bound := by rw [List.length_append]; omega
    have body := ih markup.closing next shorter
    have split := splitAtOpening_of_unmarked text.2 (markup.split (next.1 ++ charsOf rest))
    rw [nodesOf, ← markup.atTrimmedOpening (next.1 ++ charsOf rest)]
    exact Parser.passes_nodes_cons split (markup.ne_nil _) (markup.passes (by omega) _) body

theorem nodesOf_plain (left : Bool) (text : List Char) (rest : List (Markup × Prose)) :
    nodesOf clip false text (rest.map (Prod.map Markup.plain id)) =
      nodesOf (fun _ _ content => content) left text rest := by
  induction rest generalizing left text with
  | nil => rfl
  | cons piece rest ih =>
    obtain ⟨markup, next⟩ := piece
    cases markup <;> exact congrArg₂ _ rfl (ih _ _)

end Passage

/-- With dashes a template of texts and markup has the same nodes as without, in which each text is trimmed at its start
if the markup before it closes with a dash, and at its end if the markup behind it opens with one. The text of a raw
block is trimmed for the inner dashes, and a text of which nothing is left has no node. -/
theorem parse_of_dashes (passage : Passage) :
    parse (String.ofList passage.plain.chars) = .ok (passage.nodes fun _ _ content => content) ∧
      parse (String.ofList passage.chars) = .ok (passage.nodes clip) := by
  have read (passage : Passage) : parse (String.ofList passage.chars) = .ok (passage.nodes clip) :=
    Parser.parse_of_passes (Passage.passes_nodes false passage.first passage.rest (Nat.lt_succ_self _))
  refine ⟨?_, read passage⟩
  rw [read, Passage.plain, Passage.nodes, Passage.nodesOf_plain false]
  rfl

-- A text of blanks between two dashes is gone, and one next to a single dash keeps its other side.
example : parse ("a \x7b\x7b- x -\x7d\x7d \x7b% set y = 1 -%\x7d b \x7b#- c -#\x7d" ++
    "\x7b% raw -%\x7d r \x7b% endraw %\x7d") =
    .ok [.text "a", .output (.var "x"), .assign "y" (.literal (.int 1)), .text "b", .text "r "] := by
  cbv

end Folio.Template
