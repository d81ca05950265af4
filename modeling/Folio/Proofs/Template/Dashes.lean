import Folio.Proofs.Template.Lookahead
import Folio.Proofs.Template.Markup

/-! Delimiters with dashes. A dash behind an opening delimiter trims the text in front of it, which sees it ahead; one
in front of a closing delimiter trims the text behind it, and is kept until that text is read. -/
namespace Folio.Template

variable {text after more gap content : List Char} {keyword : String}

/-- The dash of a delimiter that has one. -/
def dash (present : Bool) : List Char :=
  if present then ['-'] else []

/-- A text without the blanks on the sides that are trimmed. -/
def clip (left right : Bool) (content : List Char) : List Char :=
  let content := if left then Text.trimStart content else content
  if right then Text.trimEnd content else content

instance (gap : List Char) : Decidable (IsBlank gap) :=
  inferInstanceAs (Decidable (∀ c ∈ gap, _))

/-- The blanks at some place, of which there may be none. -/
abbrev Gap := { gap : List Char // IsBlank gap }

/-- How a tag is written that has nothing but its keyword. -/
structure KeywordTag where
  opening : Bool
  before : Gap
  behind : Gap
  closing : Bool

def KeywordTag.chars (tag : KeywordTag) (keyword : String) : List Char :=
  "\x7b%".toList ++ (dash tag.opening ++ (tag.before.1 ++ (keyword.toList ++
    (tag.behind.1 ++ (dash tag.closing ++ "%\x7d".toList)))))

/-- The text starts with a tag of the keyword, of which it has at least the keyword. -/
inductive OpensTag (keyword : String) : List Char → Prop
  | intro (opening : Bool) (before : Gap) {after : List Char} : EndsWord after →
    OpensTag keyword ("\x7b%".toList ++ (dash opening ++ (before.1 ++ (keyword.toList ++ after))))

/-! ### Blanks, dashes and keywords -/

/-- A comment goes up to its closing delimiter. -/
theorem afterComment_close {trim : Bool} (h : afterComment text = some (trim, after)) :
    ∃ passed, passed ++ '#' :: '}' :: after = text := by
  fun_induction afterComment text with
  | case1 rest =>
    cases h
    exact ⟨['-'], rfl⟩
  | case2 rest =>
    cases h
    exact ⟨[], rfl⟩
  | case3 c rest _ _ ih =>
    obtain ⟨passed, cut⟩ := ih h
    exact ⟨c :: passed, by rw [← cut]; rfl⟩
  | case4 => cases h

theorem endsWord_nil : EndsWord [] :=
  fun _ m => absurd m (Option.not_mem_none _)

theorem endsWord_dash (present : Bool) (h : EndsWord text) : EndsWord (dash present ++ text) := by
  cases present with
  | false => exact h
  | true => exact fun c e => Option.some.inj e ▸ rfl

theorem endsWord_gap (gap : Gap) (h : EndsWord text) : EndsWord (gap.1 ++ text) := by
  by_cases ne : gap.1 = []
  · rw [ne]
    exact h
  · exact endsWord_of_isBlank gap.2 ne

theorem endsWord_close : EndsWord ("%\x7d".toList ++ text) :=
  fun _ e => Option.some.inj e ▸ rfl

theorem KeywordTag.chars_append (tag : KeywordTag) (keyword : String) (after : List Char) :
    tag.chars keyword ++ after = "\x7b%".toList ++ (dash tag.opening ++ (tag.before.1 ++ (keyword.toList ++
      (tag.behind.1 ++ (dash tag.closing ++ ("%\x7d".toList ++ after)))))) := by
  simp [chars]

theorem KeywordTag.endsWord (tag : KeywordTag) (after : List Char) :
    EndsWord (tag.behind.1 ++ (dash tag.closing ++ ("%\x7d".toList ++ after))) :=
  endsWord_gap tag.behind (endsWord_dash tag.closing endsWord_close)

/-- A keyword does not start with a dash, nor do the blanks in front of it. -/
theorem head?_gap_ne (hk : isIdentifier keyword) (gap : Gap) :
    (gap.1 ++ (keyword.toList ++ text)).head? ≠ some '-' := by
  by_cases ne : gap.1 = []
  · obtain ⟨c, letters, e, hc, -⟩ := isIdentStart_of_isIdentifier hk
    rw [ne, e]
    rintro ⟨⟩
    cases hc
  · exact Parser.head?_ne_of_isBlank ne gap.2 (by decide)

theorem dropToken_dash_append (present : Bool) (h : text.head? ≠ some '-') :
    dropToken "-" (dash present ++ text) = text := by
  cases present with
  | true => rfl
  | false =>
    have none : "-".toList.isPrefixOf? text = none := by
      rw [← Option.not_isSome_iff_eq_none, List.isSome_isPrefixOf?_eq_isPrefixOf]
      exact Bool.eq_false_iff.1 (Parser.startsWith_of_head? rfl h)
    change ("-".toList.isPrefixOf? text).getD text = text
    rw [none]
    rfl

theorem exists_dash_append (text : List Char) : ∃ present, dash present ++ dropToken "-" text = text := by
  by_cases h : text.head? = some '-'
  · obtain ⟨rest, rfl⟩ : ∃ rest, text = '-' :: rest := List.head?_eq_some_iff.1 h
    exact ⟨true, rfl⟩
  · exact ⟨false, dropToken_dash_append false h⟩

/-- The keyword that the parser looks ahead for is that of the tag which starts there. -/
theorem tagKeyword?_eq_some_iff (hk : isIdentifier keyword) :
    tagKeyword? text = some keyword ↔ OpensTag keyword text := by
  constructor
  · intro h
    unfold tagKeyword? at h
    split at h
    · rename_i rest
      obtain ⟨⟨keyword, after⟩, found, rfl⟩ := Option.map_eq_some_iff.1 h
      obtain ⟨opening, cut⟩ := exists_dash_append rest
      have before : IsBlank ((dropToken "-" rest).takeWhile Text.isBlank) := fun _ => List.mem_takeWhile_imp
      have opens : OpensTag keyword _ := .intro opening ⟨_, before⟩ (endsWord_of_identifier? found)
      rwa [← List.append_assoc _ _ after, identifier?_append found, cut] at opens
    · cases h
  · rintro ⟨opening, before, ends⟩
    change (identifier? (dropToken "-" (dash opening ++ _))).map (·.1) = _
    rw [dropToken_dash_append opening (head?_gap_ne hk before), identifier?_of_isIdentifier hk before.2 ends]
    rfl

theorem KeywordTag.opensTag (tag : KeywordTag) (keyword : String) (after : List Char) :
    OpensTag keyword (tag.chars keyword ++ after) := by
  rw [tag.chars_append]
  exact .intro tag.opening tag.before (tag.endsWord after)

namespace Parser

variable {α β : Type} {left between right : Bool} {last : List Char}

/-! ### Runs with dashes -/

theorem LeadsTo.refl (p : Parser α) : LeadsTo p text p text :=
  fun position => ⟨position, rfl⟩

theorem LeadsTo.get {f : Cursor → Parser α} {q : Parser α} (h : ∀ cursor, LeadsTo (f cursor) text q after) :
    LeadsTo (get >>= f) text q after :=
  fun position => h _ position

theorem LeadsTo.bind {p q : Parser β} {f : β → Parser α} (h : LeadsTo p text q after) :
    LeadsTo (p >>= f) text (q >>= f) after := by
  intro position
  obtain ⟨behind, same⟩ := h position
  refine ⟨behind, ?_⟩
  change (p { rest := text, trimNext := false, position }).bind (fun (first, next) => f first next) = _
  rw [same]
  rfl

/-- From the text the parser reads the value and leaves the rest. Before and behind it, it is known whether the text
that follows is trimmed at its start. -/
def Passes (p : Parser α) (left : Bool) (text : List Char) (value : α) (right : Bool) (rest : List Char) : Prop :=
  ∀ position : Position, ∃ behind : Position,
    p { rest := text, trimNext := left, position } = .ok (value, { rest, trimNext := right, position := behind })

namespace Passes

variable {value : α}

theorem pure : Passes (pure value) left text value left text :=
  fun position => ⟨position, rfl⟩

theorem bind {first : β} {p : Parser β} {f : β → Parser α} (hp : Passes p left text first between more)
    (hf : Passes (f first) between more value right after) : Passes (p >>= f) left text value right after := by
  intro position
  obtain ⟨middle, run⟩ := hp position
  obtain ⟨behind, run'⟩ := hf middle
  refine ⟨behind, ?_⟩
  change (p { rest := text, trimNext := left, position }).bind (fun (first, next) => f first next) = _
  rw [run]
  exact run'

theorem rest {f : List Char → Parser α} (h : Passes (f text) left text value right more) :
    Passes (rest >>= f) left text value right more :=
  h

theorem get {f : Cursor → Parser α} (h : ∀ cursor, Passes (f cursor) left text value right more) :
    Passes (get >>= f) left text value right more :=
  fun position => h _ position

theorem goto {f : Unit → Parser α} {passed : List Char} (h : Passes (f ()) left more value right after) :
    Passes (goto passed more >>= f) left text value right after :=
  fun _ => h _

theorem of_takes {p : Parser α} (h : Takes p text value after) : Passes p false text value false after :=
  h.run

theorem of_leadsTo {p q : Parser α} (h : LeadsTo p text q after) (hq : Passes q false after value right more) :
    Passes p false text value right more := by
  intro position
  obtain ⟨behind, same⟩ := h position
  rw [same]
  exact hq behind

end Passes

/-! ### Delimiters -/

/-- In front of a closing delimiter there are only blanks, and perhaps a dash. -/
theorem exists_of_expectClose {close : String} {cursor next : Cursor}
    (run : expectClose close cursor = .ok ((), next)) :
    ∃ (gap : Gap) (present : Bool), gap.1 ++ (dash present ++ (close.toList ++ next.rest)) = cursor.rest := by
  obtain ⟨_, solid, blank, run⟩ := exists_of_bind run
  obtain ⟨text, between, ahead, run⟩ := exists_of_bind run
  have gap : IsBlank (cursor.rest.takeWhile Text.isBlank) := fun _ => List.mem_takeWhile_imp
  have cut : cursor.rest.takeWhile Text.isBlank ++ between.rest = cursor.rest := by
    cases blank
    cases ahead
    exact List.takeWhile_append_dropWhile
  have here : between.rest = text := by
    cases ahead
    rfl
  split at run
  · rename_i after
    split at run
    · rename_i starts
      cases run
      refine ⟨⟨_, gap⟩, true, ?_⟩
      rw [toList_append_dropToken starts]
      exact (congrArg _ here.symm).trans cut
    · exact ⟨⟨_, gap⟩, false, by rw [rest_of_expect_token run]; exact cut⟩
  · exact ⟨⟨_, gap⟩, false, by rw [rest_of_expect_token run]; exact cut⟩

theorem takes_consume_dash (present : Bool) (h : text.head? ≠ some '-') :
    Takes (consume "-") (dash present ++ text) present text := by
  cases present with
  | true => exact takes_consume "-"
  | false => exact takes_consume_ne rfl h

/-- The delimiters that close an output and a tag. -/
def closers : List String :=
  ["\x7d\x7d", "%\x7d"]

theorem head?_of_mem_closers {close : String} (m : close ∈ closers) :
    ∃ c more, close.toList = c :: more ∧ Text.isBlank c = false ∧ c ≠ '-' := by
  rcases List.mem_pair.1 m with rfl | rfl
  · exact ⟨'}', ['}'], rfl, by decide, by decide⟩
  · exact ⟨'%', ['}'], rfl, by decide, by decide⟩

theorem passes_expectClose {close : String} (m : close ∈ closers) (gap : Gap) (present : Bool) :
    Passes (expectClose close) false (gap.1 ++ (dash present ++ (close.toList ++ after))) () present after := by
  obtain ⟨c, more, e, hb, hd⟩ := head?_of_mem_closers m
  cases present with
  | false => exact .of_takes (takes_expectClose gap.2 e hb hd)
  | true =>
    have starts : startsWith close (close.toList ++ after) = true := List.isPrefixOf_iff_prefix.2 ⟨after, rfl⟩
    have drop : dropToken close (close.toList ++ after) = after := by
      rw [dropToken, List.isPrefixOf?_eq_some_iff_append_eq.2 rfl]
      rfl
    refine (Passes.of_takes (takes_skipBlank gap.2 (isSolid_cons (by decide)))).bind (.rest ?_)
    change Passes (if startsWith close (close.toList ++ after) then (do
      pass ("-" ++ close) (dropToken close (close.toList ++ after))
      modify (fun cursor => { cursor with trimNext := true })) else expect close) _ _ _ _ _
    rw [if_pos starts, drop]
    exact fun _ => ⟨_, rfl⟩

theorem takes_openTag_of_tag (hk : isIdentifier keyword) (opening : Bool) (before : Gap) (ends : EndsWord after) :
    Takes openTag ("\x7b%".toList ++ (dash opening ++ (before.1 ++ (keyword.toList ++ after)))) keyword after :=
  (takes_expect "\x7b%").bind ((takes_consume_dash opening (head?_gap_ne hk before)).bind
    (takes_identifier hk before.2 ends))

theorem passes_endTag (hk : isIdentifier keyword) (tag : KeywordTag) :
    Passes (endTag keyword) false (tag.chars keyword ++ after) () tag.closing after := by
  rw [tag.chars_append]
  have close : Passes (expectClose "%\x7d") false _ () tag.closing after :=
    passes_expectClose (by decide) tag.behind tag.closing
  have word := takes_expectWord hk tag.before.2 (tag.endsWord after)
  exact (Passes.of_takes (takes_expect "\x7b%")).bind
    ((Passes.of_takes (takes_consume_dash tag.opening (head?_gap_ne hk tag.before))).bind
      ((Passes.of_takes word).bind close))

/-- A text is trimmed for the dash behind it and for the one it was read up to. -/
theorem passes_trimmed (content : List Char) :
    Passes (trimmed content) left after (String.ofList (clip left (atTrimmedOpening after) content)) false after :=
  fun position => ⟨position, rfl⟩

theorem passes_text (split : splitAtOpening text = (content, after)) :
    Passes Parser.text left text (String.ofList (clip left (atTrimmedOpening after) content)) false after := by
  refine .rest ?_
  rw [split]
  exact .goto (passes_trimmed content)

/-! ### Bodies -/

section Bodies

variable {bound : Nat} {body : BodyParser} {inner : Parser Expr} {node : Node} {more : List Node}
  {closing : Option String} {rest : List Char}

/-- A template is a text up to its end, or goes on behind the first markup. -/
theorem exists_of_nodes {ns : List Node} {cursor last : Cursor}
    (run : nodes (bound + 1) [] cursor = .ok ((ns, closing), last)) :
    ∃ content between, Parser.text cursor = .ok (content, between) ∧
      (between.rest = [] ∧ last = between ∧ ns = leading content ∨
        between.rest ≠ [] ∧ ∃ node behind more,
          markup (nodes bound) (expression (bound + 1)) (bound + 1) between = .ok (node, behind) ∧
            nodes bound [] behind = .ok ((more, closing), last) ∧ ns = leading content ++ node.toList ++ more) := by
  obtain ⟨content, between, text, run⟩ := exists_of_bind run
  refine ⟨content, between, text, ?_⟩
  obtain ⟨_, _, found, run⟩ := exists_of_bind run
  cases found
  cases h : between.rest with
  | nil =>
    rw [h] at run
    cases run
    exact .inl ⟨rfl, rfl, rfl⟩
  | cons c rest =>
    rw [h] at run
    obtain ⟨_, _, found, run⟩ := exists_of_bind run
    cases found
    have going : (tagKeyword? between.rest).filter (· ∈ []) = none := by simp
    rw [going] at run
    obtain ⟨node, behind, tag, run⟩ := exists_of_bind run
    obtain ⟨⟨more, _⟩, _, body, run⟩ := exists_of_bind run
    cases run
    exact .inr ⟨List.cons_ne_nil c rest, node, behind, more, tag, body, rfl⟩

theorem leadsTo_markup_tag {p : Parser Node} (h : LeadsTo (tag body inner bound) ("\x7b%".toList ++ text) p after) :
    LeadsTo (markup body inner bound) ("\x7b%".toList ++ text) (do return some (← p)) after := by
  have comment : Takes (peek "\x7b#") ("\x7b%".toList ++ text) false ("\x7b%".toList ++ text) := ⟨fun _ => ⟨_, rfl⟩⟩
  have output : Takes (peek "\x7b\x7b") ("\x7b%".toList ++ text) false ("\x7b%".toList ++ text) := ⟨fun _ => ⟨_, rfl⟩⟩
  exact (comment.run_bind _).trans ((output.run_bind _).trans h.bind)

theorem passes_markup_tag (h : Passes (tag body inner bound) false ("\x7b%".toList ++ text) node right after) :
    Passes (markup body inner bound) false ("\x7b%".toList ++ text) (some node) right after :=
  .of_leadsTo (leadsTo_markup_tag (.refl _)) (h.bind .pure)

theorem passes_nodes_end (split : splitAtOpening text = (content, [])) :
    Passes (nodes (bound + 1) []) left text (leading (String.ofList (clip left false content)), none) false [] :=
  (passes_text split).bind fun _ => ⟨_, rfl⟩

/-- A body is a text up to the first markup, the markup, and the body behind it. -/
theorem passes_nodes_cons {node : Option Node} (split : splitAtOpening text = (content, after)) (ne : after ≠ [])
    (hm : Passes (markup (nodes bound) (expression (bound + 1)) (bound + 1)) false after node between rest)
    (hn : Passes (nodes bound []) between rest (more, closing) right last) :
    Passes (nodes (bound + 1) []) left text
      (leading (String.ofList (clip left (atTrimmedOpening after) content)) ++ node.toList ++ more, closing) right
      last := by
  have going : Passes atEnd false after false false after := by
    obtain ⟨c, behind, rfl⟩ := List.exists_cons_of_ne_nil ne
    exact fun _ => ⟨_, rfl⟩
  refine (passes_text split).bind (going.bind (.rest ?_))
  have none (keyword : Option String) : keyword.filter (· ∈ []) = none := by cases keyword <;> simp
  rw [none]
  exact hm.bind (hn.bind .pure)

/-- The template of a text. -/
theorem parse_of_passes (h : Passes (nodes (text.length + 1) []) false text (more, closing) right rest) :
    parse (String.ofList text) = .ok more := by
  obtain ⟨behind, run⟩ := h .start
  rw [parse, String.toList_ofList, run]

end Bodies

end Parser

end Folio.Template
