import Folio.Proofs.Template.Dashes
import Folio.Template.Render

/-! Raw blocks. What stands between their tags is a text, whatever it has in it: it ends where the first tag starts that
ends the block, and no such tag starts in the text and goes on in the tag behind it. -/
namespace Folio.Template

variable {text after content closing : List Char} {keyword : String}

/-! ### The end of a raw block -/

/-- Nowhere in the text starts a tag that ends a raw block. -/
def Unended (content : List Char) : Prop :=
  ∀ start, start <:+ content → ¬ OpensTag "endraw" start

theorem unended_iff : Unended content ↔ ∀ start ∈ content.tails, tagKeyword? start ≠ some "endraw" := by
  refine forall_congr' fun start => ?_
  rw [List.mem_tails, ne_eq, tagKeyword?_eq_some_iff (by decide)]

instance (content : List Char) : Decidable (Unended content) :=
  decidable_of_iff _ unended_iff.symm

theorem unended_nil : Unended [] := by
  decide

theorem unended_cons {c : Char} : Unended (c :: content) ↔ ¬ OpensTag "endraw" (c :: content) ∧ Unended content := by
  simp only [Unended, List.suffix_cons_iff, forall_eq_or_imp]

theorem OpensTag.head? (h : OpensTag keyword closing) : closing.head? = some '{' := by
  cases h
  rfl

/-- Up to the end of its keyword a tag has no brace but the one that opens it. -/
theorem notMem_of_isIdentifier (hk : isIdentifier keyword) (opening : Bool) (before : Gap) :
    '{' ∉ '%' :: (dash opening ++ (before.1 ++ keyword.toList)) := by
  obtain ⟨c, letters, e, hc, hl⟩ := isIdentStart_of_isIdentifier hk
  have dashed : '{' ∉ dash opening := by cases opening <;> decide
  have blank : '{' ∉ before.1 := fun m => absurd (before.2 _ m) (by decide)
  have first : '{' ≠ c := by
    rintro rfl
    cases hc
  have letter : '{' ∉ letters := fun m => absurd (hl _ m) (by decide)
  simp [e, dashed, blank, first, letter]

/-- A tag that starts in a text has its keyword there, if what follows starts with a brace. -/
theorem opensTag_append_iff (hk : isIdentifier keyword) (hc : closing.head? = some '{') (ne : text ≠ []) :
    OpensTag keyword (text ++ closing) ↔ OpensTag keyword text := by
  have ends {after : List Char} : EndsWord (after ++ closing) ↔ EndsWord after := by
    cases after with
    | nil => simp [EndsWord, hc, isIdentRest]
    | cons c after => rfl
  constructor
  · intro h
    generalize whole : text ++ closing = source at h
    obtain ⟨opening, before, last⟩ := h
    rename_i after
    have split : text ++ closing = ("\x7b%".toList ++ (dash opening ++ (before.1 ++ keyword.toList))) ++ after := by
      simpa using whole
    obtain ⟨behind, head, rest⟩ | ⟨inside, rfl, rfl⟩ := List.append_eq_append_iff.1 split
    · -- The keyword would go on in what follows, whose brace the tag does not have.
      cases behind with
      | nil =>
        rw [List.append_nil] at head
        rw [← head]
        have opens : OpensTag keyword ("\x7b%".toList ++ (dash opening ++ (before.1 ++ (keyword.toList ++ [])))) :=
          .intro opening before endsWord_nil
        simpa using opens
      | cons c behind =>
        obtain rfl : c = '{' := by
          rw [rest] at hc
          exact Option.some.inj hc
        obtain ⟨d, text, rfl⟩ := List.exists_cons_of_ne_nil ne
        have tail : '%' :: (dash opening ++ (before.1 ++ keyword.toList)) = text ++ '{' :: behind :=
          (List.cons.inj head).2
        exact absurd (tail ▸ List.mem_append_right text List.mem_cons_self) (notMem_of_isIdentifier hk opening before)
    · have opens : OpensTag keyword _ := .intro opening before (ends.1 last)
      simpa using opens
  · rintro ⟨opening, before, last⟩
    have opens : OpensTag keyword _ := .intro opening before (ends.2 last)
    simpa using opens

/-- The scan for the end of a raw block finds the tag behind the content just if none starts in it. -/
theorem splitAtEndRaw_append_iff (hc : OpensTag "endraw" closing) :
    splitAtEndRaw (content ++ closing) = some (content, closing) ↔ Unended content := by
  induction content with
  | nil =>
    obtain ⟨rest, rfl⟩ : ∃ rest, closing = '{' :: rest := List.head?_eq_some_iff.1 hc.head?
    rw [List.nil_append, splitAtEndRaw, if_pos ((tagKeyword?_eq_some_iff (by decide)).2 hc)]
    exact iff_of_true rfl unended_nil
  | cons c content ih =>
    have here : tagKeyword? (c :: (content ++ closing)) = some "endraw" ↔ OpensTag "endraw" (c :: content) := by
      rw [tagKeyword?_eq_some_iff (by decide), ← List.cons_append]
      exact opensTag_append_iff (by decide) hc.head? (List.cons_ne_nil c content)
    rw [unended_cons, ← ih, List.cons_append, splitAtEndRaw]
    split
    · rename_i opens
      simp [here.1 opens]
    · rename_i closed
      simp [here.not.1 closed]

namespace Parser

variable {bound : Nat} {body : BodyParser} {inner : Parser Expr}

/-! ### Raw blocks -/

theorem atTrimmedOpening_dash {c : Char} (hc : c = '{' ∨ c = '%' ∨ c = '#') (present : Bool)
    (h : text.head? ≠ some '-') : atTrimmedOpening ('{' :: c :: (dash present ++ text)) = present := by
  cases present with
  | true => rcases hc with rfl | rfl | rfl <;> rfl
  | false =>
    unfold atTrimmedOpening
    split
    · rename_i e
      exact absurd (congrArg List.head? (List.cons.inj (List.cons.inj e).2).2) h
    · rfl

theorem atTrimmedOpening_keywordTag (hk : isIdentifier keyword) (tag : KeywordTag) (after : List Char) :
    atTrimmedOpening (tag.chars keyword ++ after) = tag.opening := by
  rw [tag.chars_append]
  exact atTrimmedOpening_dash (.inr (.inl rfl)) tag.opening (head?_gap_ne hk tag.before)

/-- A raw block is read up to its end tag as a text, which the inner dashes trim. -/
theorem passes_rawTag (start ending : KeywordTag) (h : Unended content) :
    Passes rawTag false (start.behind.1 ++ (dash start.closing ++ ("%\x7d".toList ++
      (content ++ (ending.chars "endraw" ++ after)))))
      (.text (String.ofList (clip start.closing ending.opening content))) ending.closing after := by
  have split := (splitAtEndRaw_append_iff (ending.opensTag "endraw" after)).2 h
  refine (passes_expectClose (by decide) start.behind start.closing).bind (.rest ?_)
  rw [split]
  have trimmed : Passes (trimmed content) start.closing (ending.chars "endraw" ++ after) _ false _ :=
    passes_trimmed content
  rw [atTrimmedOpening_keywordTag (by decide)] at trimmed
  exact .goto (trimmed.bind ((passes_endTag (by decide) ending).bind .pure))

theorem passes_markup_raw (start ending : KeywordTag) (h : Unended content) :
    Passes (markup body inner bound) false (start.chars "raw" ++ (content ++ (ending.chars "endraw" ++ after)))
      (some (.text (String.ofList (clip start.closing ending.opening content)))) ending.closing after := by
  rw [start.chars_append]
  have word := start.endsWord (content ++ (ending.chars "endraw" ++ after))
  have opens : Takes openTag _ "raw" _ := takes_openTag_of_tag (by decide) start.opening start.before word
  exact passes_markup_tag (.get fun _ => (Passes.of_takes opens).bind (passes_rawTag start ending h))

end Parser

/-! ### Templates of one raw block -/

/-- A tag without dashes, with a blank on either side of its keyword. -/
def plainTag : KeywordTag where
  opening := false
  before := ⟨[' '], List.forall_mem_singleton.2 rfl⟩
  behind := ⟨[' '], List.forall_mem_singleton.2 rfl⟩
  closing := false

theorem parse_raw (h : Unended content) :
    parse (String.ofList (plainTag.chars "raw" ++ (content ++ plainTag.chars "endraw"))) =
      .ok [.text (String.ofList content)] := by
  generalize whole : plainTag.chars "raw" ++ (content ++ plainTag.chars "endraw") = source
  obtain ⟨bound, length⟩ : ∃ bound, source.length = bound + 1 :=
    Nat.exists_eq_succ_of_ne_zero (by rw [← whole]; exact nofun)
  have markup : Parser.Passes (Parser.markup (Parser.nodes (bound + 1)) (Parser.expression (bound + 1 + 1))
      (bound + 1 + 1)) false _ (some (.text (String.ofList content))) false [] :=
    Parser.passes_markup_raw plainTag plainTag h
  rw [List.append_nil, whole] at markup
  obtain ⟨split, dash, ne⟩ : splitAtOpening source = ([], source) ∧ atTrimmedOpening source = false ∧ source ≠ [] := by
    rw [← whole]
    exact ⟨rfl, rfl, nofun⟩
  have body : Parser.Passes _ false source _ _ _ :=
    Parser.passes_nodes_cons split ne markup (Parser.passes_nodes_end rfl)
  rw [dash, ← length] at body
  exact Parser.parse_of_passes body

theorem exists_read_of_parse (name : String) {source : String} {nodes : List Node} (h : parse source = .ok nodes) :
    ∃ template, read name source = .ok template ∧ template.nodes = nodes := by
  unfold read
  split
  · rename_i found parsed
    obtain rfl := Except.ok.inj (parsed.symm.trans h)
    exact ⟨_, rfl, rfl⟩
  · rename_i failed
    cases failed.symm.trans h

/-- A text shows itself. -/
theorem render_of_text {template : Template} {s : String} (h : template.nodes = [.text s]) (setting : Setting)
    (globals : Namespace) : template.render setting globals = .ok s := by
  obtain ⟨n, jumps⟩ : ∃ n, maxJumps = n + 1 := ⟨999999, rfl⟩
  have single : parent? template.nodes = none := by
    rw [h]
    rfl
  rw [render, document, layOut.eq_def, single, jumps]
  change (renderNodes setting (.within setting n) ⟨[], 0, 0⟩ template.nodes (.ofNamespace globals)).1 = _
  rw [h, renderNodes, renderNodes, renderNode]
  change Except.ok (s ++ "") = _
  rw [String.append_empty]

/-- Between the tags of a raw block a text stands for itself: the template has that text for its only node, and shows it
in every namespace. -/
theorem render_raw (name s : String) (h : Unended s.toList) :
    ∃ template, read name ("\x7b% raw %\x7d" ++ s ++ "\x7b% endraw %\x7d") = .ok template ∧
      template.nodes = [.text s] ∧ ∀ setting globals, template.render setting globals = .ok s := by
  have source : "\x7b% raw %\x7d" ++ s ++ "\x7b% endraw %\x7d" =
      String.ofList (plainTag.chars "raw" ++ (s.toList ++ plainTag.chars "endraw")) := by
    rw [String.ofList_append, String.ofList_append, String.ofList_toList, ← String.append_assoc]
    rfl
  have parsed := parse_raw h
  rw [← source, String.ofList_toList] at parsed
  obtain ⟨template, read, nodes⟩ := exists_read_of_parse name parsed
  exact ⟨template, read, nodes, render_of_text nodes⟩

/-- Delimiters, comments and quotes that are left open, tags with a longer keyword, and a brace next to the end tag are
all part of the text. -/
theorem render_raw_of_fragments :
    let s := "\x7b\x7b é \x7b# \" \x7b% endraws %\x7d \x7b%- endraw1 \x7b% end\x7braw \x7b% \x7b"
    ∃ template, read "page" ("\x7b% raw %\x7d" ++ s ++ "\x7b% endraw %\x7d") = .ok template ∧
      template.nodes = [.text s] ∧ ∀ setting globals, template.render setting globals = .ok s :=
  render_raw "page" _ (by decide)

end Folio.Template
