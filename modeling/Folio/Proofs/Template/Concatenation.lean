import Folio.Proofs.Template.Characters
import Folio.Proofs.Template.Closing
import Mathlib

/-! Concatenation of templates. Where one template ends and another goes on behind it, the parser reads the nodes of
both, and the text before the seam and the text behind it as one. -/
namespace Folio.Template

variable {text after more : List Char}

/-- All nodes are those of two templates, where two texts side by side may have become one. -/
inductive Joined (first second : List Node) : List Node → Prop
  | apart : Joined first second (first ++ second)
  | texts {before behind : List Node} {s t : String} (left : first = before ++ [.text s])
    (right : second = .text t :: behind) : Joined first second (before ++ .text (s ++ t) :: behind)

theorem Joined.behind {first second all : List Node} (before : List Node) (h : Joined first second all) :
    Joined (before ++ first) second (before ++ all) := by
  cases h with
  | apart => exact (List.append_assoc before first second) ▸ .apart
  | texts left right =>
    rw [← List.append_assoc]
    exact .texts (by rw [left, List.append_assoc]) right

/-- The node of a text, which an empty one does not have. -/
def textNodes (content : List Char) : List Node :=
  if (String.ofList content).isEmpty then [] else [.text (String.ofList content)]

theorem textNodes_of_ne (h : text ≠ []) : textNodes text = [.text (String.ofList text)] := by
  rw [textNodes, if_neg]
  rw [String.isEmpty_iff]
  intro e
  exact h (by simpa using congrArg String.toList e)

theorem joined_textNodes (left right : List Char) (nodes : List Node) :
    Joined (textNodes left) (textNodes right ++ nodes) (textNodes (left ++ right) ++ nodes) := by
  by_cases hl : left = []
  · subst hl
    exact .apart
  by_cases hr : right = []
  · subst hr
    rw [List.append_nil]
    exact .apart
  · rw [textNodes_of_ne hl, textNodes_of_ne hr, textNodes_of_ne (List.append_ne_nil_of_left_ne_nil hl right),
      String.ofList_append]
    exact Joined.texts (List.nil_append _).symm rfl

theorem Dashless.atTrimmedOpening (h : Dashless text) : atTrimmedOpening text = false := by
  unfold Folio.Template.atTrimmedOpening
  split
  · rename_i c rest
    have apart (x : Char) (m : x ∈ ['{', '%', '#']) : c ≠ x := by
      rintro rfl
      exact h.opening c m ⟨[], rest, rfl⟩
    simp [apart '{' (by decide), apart '%' (by decide), apart '#' (by decide)]
  · rfl

namespace Parser

/-! ### Bodies of a template -/

section Bodies

variable {content rest : List Char} {bound : Nat}

theorem takes_text_of_split (split : splitAtOpening text = (content, after))
    (dash : atTrimmedOpening after = false) : Takes Parser.text text (String.ofList content) after := by
  refine .rest ?_
  rw [split]
  refine .goto ⟨fun position => ⟨position, ?_⟩⟩
  change Except.ok (String.ofList (if atTrimmedOpening after then _ else content), _) = _
  rw [dash, if_neg nofun]
  rfl

theorem filter_mem_nil (keyword : Option String) : keyword.filter (· ∈ []) = none := by
  cases keyword with
  | none => rfl
  | some keyword => simp

theorem takes_nodes_of_text (split : splitAtOpening text = (content, [])) :
    Takes (nodes (bound + 1) []) text (textNodes content, none) [] := by
  refine (takes_text_of_split split rfl).bind (.yes ?_ (.bind .pure .pure))
  exact .rest .pure

theorem takes_nodes_of_markup {node : Option Node} {more : List Node} {closing : Option String} {last : List Char}
    (split : splitAtOpening text = (content, after)) (ne : after ≠ []) (dash : atTrimmedOpening after = false)
    (hm : Takes (markup (nodes bound) (expression (bound + 1)) (bound + 1)) after node rest)
    (hn : Takes (nodes bound []) rest (more, closing) last) :
    Takes (nodes (bound + 1) []) text (textNodes content ++ node.toList ++ more, closing) last := by
  have going : Takes atEnd after false after := by
    obtain ⟨c, behind, rfl⟩ := List.exists_cons_of_ne_nil ne
    exact .rest .pure
  refine (takes_text_of_split split dash).bind (going.no (.rest ?_))
  rw [filter_mem_nil]
  exact hm.bind (hn.bind .pure)

/-- A body without an end tag is a text up to the end, or goes on behind the first markup. -/
theorem nodes_cases {position : Position} {ns : List Node} {closing : Option String} {last : Cursor}
    (hd : Dashless text) (split : splitAtOpening text = (content, after))
    (run : nodes (bound + 1) [] { rest := text, trimNext := false, position } = .ok ((ns, closing), last)) :
    (after = [] ∧ ns = textNodes content) ∨
    (after ≠ [] ∧ ∃ node more, ∃ (next : Cursor) (behind : Position),
      markup (nodes bound) (expression (bound + 1)) (bound + 1)
        { rest := after, trimNext := false, position := behind } = .ok (node, next) ∧
      nodes bound [] next = .ok ((more, closing), last) ∧ ns = textNodes content ++ node.toList ++ more) := by
  have hd : Dashless after := hd.of_suffix (suffix_of_split split)
  rw [nodes] at run
  obtain ⟨behind, eq⟩ := (takes_text_of_split split hd.atTrimmedOpening).run_bind _ position
  have run := eq.symm.trans run
  cases after with
  | nil =>
    cases run
    exact .inl ⟨rfl, rfl⟩
  | cons c rest =>
    refine .inr ⟨List.cons_ne_nil c rest, ?_⟩
    obtain ⟨_, _, found, run⟩ := exists_of_bind run
    cases found
    obtain ⟨_, _, found, run⟩ := exists_of_bind run
    cases found
    rw [filter_mem_nil] at run
    obtain ⟨node, next, hm, run⟩ := exists_of_bind run
    obtain ⟨⟨more, _⟩, _, hn, run⟩ := exists_of_bind run
    cases run
    exact ⟨node, more, next, behind, hm, hn, rfl⟩

/-- Markup is read the same in front of anything else, and with larger bounds. -/
theorem takes_markup_more {k m : Nat} (h : k ≤ m) (hd : Dashless text) {position : Position} {node : Option Node}
    {next : Cursor} (run : markup (nodes k) (expression (k + 1)) (k + 1)
      { rest := text, trimNext := false, position } = .ok (node, next)) (more : List Char) :
    ∃ (rest : List Char) (behind : Position), next = { rest, trimNext := false, position := behind } ∧ rest <:+ text ∧
      Covers more text ∧ Takes (markup (nodes m) (expression (m + 1)) (m + 1)) (text ++ more) node (rest ++ more) := by
  have above := Nat.succ_le_succ h
  have tag := closes_markup (extends_nodes h) (extends_expression above) above more text hd
  obtain ⟨⟨taken, cut, -⟩, trim, takes⟩ := tag position node next run
  exact ⟨next.rest, next.position, by rw [← trim], ⟨taken, cut⟩, tag.covers run more, takes⟩

end Bodies

/-! ### The seam -/

section Seam

variable {next content : List Char} {k m : Nat} {position : Position} {bs : List Node} {closing : Option String}
  {last : Cursor}

theorem getLast?_ne_of_suffix (hl : text.getLast? ≠ some '{') (s : after <:+ text) : after.getLast? ≠ some '{' := by
  obtain ⟨before, rfl⟩ := s
  intro e
  exact hl (by rw [List.getLast?_append, e]; rfl)

/-- A text that neither opens nor starts to open anything belongs to the text behind it. -/
theorem splitAtOpening_of_plain (plain : splitAtOpening text = (text, [])) (hl : text.getLast? ≠ some '{')
    (split : splitAtOpening next = (content, after)) :
    splitAtOpening (text ++ next) = (text ++ content, after) := by
  induction text with
  | nil => exact split
  | cons c text ih =>
    rw [splitAtOpening] at plain
    split at plain
    · cases plain
    · rename_i closed
      have here : atOpening (c :: (text ++ next)) = false := by
        cases text with
        | nil => exact atOpening_of_ne (fun e => hl (congrArg some e)) next
        | cons d text =>
          rw [List.cons_append, atOpening_cons_cons, ← atOpening_cons_cons c d text]
          exact Bool.eq_false_iff.2 closed
      have rest : splitAtOpening text = (text, []) := by
        cases e : splitAtOpening text with
        | mk before after =>
          rw [e] at plain
          cases plain
          rfl
      rw [List.cons_append, splitAtOpening, if_neg (Bool.eq_false_iff.1 here),
        ih rest (getLast?_ne_of_suffix hl (List.suffix_cons c text))]
      rfl

/-- Text in front of a template joins the text at its start. -/
theorem takes_seam (plain : splitAtOpening text = (text, [])) (hl : text.getLast? ≠ some '{') (hd : Dashless next)
    (run : nodes k [] { rest := next, trimNext := false, position } = .ok ((bs, closing), last)) (h : k ≤ m) :
    ∃ ns closing rest, Takes (nodes m []) (text ++ next) (ns, closing) rest ∧ Joined (textNodes text) bs ns := by
  obtain _ | k := k
  · cases run
  obtain _ | m := m
  · exact absurd h (Nat.not_succ_le_zero k)
  have h := Nat.le_of_succ_le_succ h
  cases split : splitAtOpening next with
  | mk content after =>
  have seam := splitAtOpening_of_plain plain hl split
  have hd' : Dashless after := hd.of_suffix (suffix_of_split split)
  obtain ⟨rfl, rfl⟩ | ⟨ne, node, more, between, behind, tag, run, rfl⟩ := nodes_cases hd split run
  · have joined := joined_textNodes text content []
    rw [List.append_nil, List.append_nil] at joined
    exact ⟨_, _, _, takes_nodes_of_text seam, joined⟩
  · obtain ⟨rest, behind, rfl, s, -, tag⟩ := takes_markup_more h hd' tag []
    obtain ⟨-, -, body⟩ := extends_nodes h [] [] rest (hd'.of_suffix s) behind _ last run
    have body := body (.inl rfl)
    rw [List.append_nil, List.append_nil] at tag body
    refine ⟨_, _, _, takes_nodes_of_markup seam ne hd'.atTrimmedOpening tag body, ?_⟩
    rw [List.append_assoc, List.append_assoc]
    exact joined_textNodes text content (node.toList ++ more)

/-- The nodes of a template behind another are read as they are, from the seam on. -/
theorem takes_concatenated {as : List Node} {closing' : Option String} {last' : Cursor} {n : Nat} {position' : Position}
    (run : nodes n [] { rest := text, trimNext := false, position := position' } = .ok ((as, closing'), last'))
    (hd : Dashless text) (hl : text.getLast? ≠ some '{') (hn : Dashless next)
    (run' : nodes (k + 1) [] { rest := next, trimNext := false, position } = .ok ((bs, closing), last)) :
    ∃ ns closing rest, Takes (nodes (n + k) []) (text ++ next) (ns, closing) rest ∧ Joined as bs ns := by
  -- On the bound of the first template, whose last text is the one at the seam.
  induction n generalizing text as position' with
  | zero => cases run
  | succ n ih =>
    cases split : splitAtOpening text with
    | mk content after =>
    have hd' : Dashless after := hd.of_suffix (suffix_of_split split)
    obtain ⟨rfl, rfl⟩ | ⟨ne, node, more, between, behind, tag, run, rfl⟩ := nodes_cases hd split run
    · have whole := splitAtOpening_append text
      rw [split] at whole
      obtain rfl : content = text := (List.append_nil content).symm.trans whole
      exact takes_seam split hl hn run' (by omega)
    · obtain ⟨rest, behind, rfl, s, covers, tag⟩ := takes_markup_more (Nat.le_add_right n k) hd' tag next
      have hl' := getLast?_ne_of_suffix hl (s.trans (suffix_of_split split))
      obtain ⟨ns, closing, last, body, joined⟩ := ih run (hd'.of_suffix s) hl'
      have split' : splitAtOpening (text ++ next) = (content, after ++ next) := by
        rw [splitAtOpening_more fun e => absurd (by rw [split] at e; exact e) ne, split]
      have dash : atTrimmedOpening (after ++ next) = false := by
        rw [covers.atTrimmedOpening_append, hd'.atTrimmedOpening]
      rw [Nat.succ_add]
      refine ⟨_, _, _, takes_nodes_of_markup split' (List.append_ne_nil_of_left_ne_nil ne next) dash tag body, ?_⟩
      exact joined.behind _

end Seam

end Parser

/-- A template behind another one, neither of which trims anything, is read as the nodes of both. -/
theorem parse_append {a b : String} {as bs : List Node} (ha : parse a = .ok as) (hb : parse b = .ok bs)
    (da : Dashless a.toList) (db : Dashless b.toList) (hl : a.toList.getLast? ≠ some '{') :
    ∃ ns, parse (a ++ b) = .ok ns ∧ Joined as bs ns := by
  obtain ⟨_, _, run⟩ := exists_of_parse ha
  obtain ⟨_, _, run'⟩ := exists_of_parse hb
  obtain ⟨ns, closing, rest, ⟨takes⟩, joined⟩ := Parser.takes_concatenated run da hl db run'
  obtain ⟨behind, takes⟩ := takes .start
  refine ⟨ns, ?_, joined⟩
  have bound : (a ++ b).toList.length + 1 = a.toList.length + 1 + b.toList.length := by
    rw [String.toList_append, List.length_append, Nat.add_right_comm]
  rw [parse, bound, String.toList_append, takes]
  rfl

/-- Delimiters in a string, a raw block and a comment close nothing, and the texts at the seam become one. -/
theorem parse_append_of_delimiters :
    let a := "\x7b\x7b '\x7d\x7d \x7b% x' \x7d\x7d\x7b% raw %\x7d\x7b\x7b y \x7d\x7d\x7b% endraw %\x7d" ++
      "\x7b# \x7b% if #\x7dup "
    let b := "to \x7b% if x %\x7d1\x7b% endif %\x7d"
    ∃ ns, parse (a ++ b) = .ok ns ∧
      Joined [.output (.literal (.string "\x7d\x7d \x7b% x")), .text "\x7b\x7b y \x7d\x7d", .text "up "]
        [.text "to ", .branch [(.var "x", [.text "1"])] none] ns :=
  parse_append ((parse_eq_parseChars (Text.append_eq_ofList rfl rfl)).trans (by cbv))
    ((parse_eq_parseChars rfl).trans (by cbv)) (by decide) (by decide) (by decide)

end Folio.Template
