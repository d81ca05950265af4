import Folio.Proofs.Template.Characters
import Folio.Proofs.Template.Tags

/-! Printed templates are read back. A tag with bodies reads each of them up to the tag that ends it, which another tag
of the same keyword in the body does not do; the theorem for all templates is an induction on their nodes. -/
namespace Folio.Template

namespace Parser

variable {text after gap chars : List Char} {extra : Expr → Bool} {depth bound : Nat} {e : Expr}

/-! ### Bodies -/

/-- The keywords of the tags that end a body. -/
def closingKeywords : List String :=
  ["elif", "elseif", "else", "endif", "endfor", "endblock", "endmacro", "endcall", "endfilter"]

theorem notMem_of_openingKeywords {ends : List String} (h : ∀ keyword ∈ ends, keyword ∈ closingKeywords) :
    ∀ keyword ∈ openingKeywords, keyword ∉ ends := by
  have apart : ∀ keyword ∈ openingKeywords, keyword ∉ closingKeywords := by decide
  exact fun keyword m m' => apart keyword m (h keyword m')

theorem isIdentifier_of_closing {keyword : String} (h : keyword ∈ closingKeywords) : isIdentifier keyword := by
  have words : ∀ keyword ∈ closingKeywords, isIdentifier keyword := by decide
  exact words keyword h

section Bodies

variable {body : List Node} {closing : String} (h : ReadsBody extra body) (hk : closing ∈ closingKeywords)
include h hk

theorem takes_body (hc : Composed (piecesOfAll extra body) chars) {tokens : List Token} {close : List Char}
    (ht : (Piece.tag closing tokens).Written close) {ends : List String} (hm : closing ∈ ends)
    (he : ∀ keyword ∈ ends, keyword ∈ closingKeywords) (hb : (chars ++ (close ++ after)).length < bound) :
    Takes (nodes bound ends) (chars ++ (close ++ after)) (body, some closing) (close ++ after) :=
  h hc (endsBody_of_tag hm (isIdentifier_of_closing hk) ht after) (notMem_of_openingKeywords he) hb

theorem takes_bodyUntil (hw : Composed (piecesOfAll extra body ++ [.tag closing []]) chars)
    (hb : (chars ++ after).length < bound) : Takes (bodyUntil (nodes bound) closing) (chars ++ after) body after := by
  obtain ⟨inside, last, rfl, hi, hl⟩ := composed_append.1 hw
  obtain ⟨close, _, rfl, hc, hnil⟩ := composed_cons.1 hl
  cases hnil
  rw [List.append_nil, List.append_assoc] at hb ⊢
  have run := takes_body h hk hi hc (List.mem_singleton_self _) (List.forall_mem_singleton.2 hk) hb
  exact run.bind ((takes_endTag (isIdentifier_of_closing hk) hc).bind .pure)

end Bodies

/-- The body behind `else`, if there is one, and the end tag. -/
theorem takes_otherwiseBody {α : Type} {otherwise : Option (List Node)} (h : ∀ body ∈ otherwise, ReadsBody extra body)
    {closing : String} (hk : closing ∈ closingKeywords) (hne : closing ≠ "else")
    (hw : Composed (piecesOfElse extra otherwise ++ [.tag closing []]) chars) (hb : (chars ++ after).length < bound)
    (result : Option (List Node) → α) : ∃ keyword tokens first more, (Piece.tag keyword tokens).Written first ∧
      chars = first ++ more ∧ (keyword = "else" ∨ keyword = closing) ∧
      Takes (if some keyword = some "else" then do
          let _ ← openTag
          expectClose "%\x7d"
          return result (some (← bodyUntil (nodes bound) closing))
        else do
          endTag closing
          return result none) (chars ++ after) (result otherwise) after := by
  cases otherwise with
  | none =>
    rw [piecesOfElse, List.nil_append] at hw
    obtain ⟨close, _, rfl, hc, hnil⟩ := composed_cons.1 hw
    cases hnil
    refine ⟨closing, [], close, [], hc, rfl, .inr rfl, ?_⟩
    rw [List.append_nil, if_neg fun e => hne (Option.some.inj e)]
    exact (takes_endTag (isIdentifier_of_closing hk) hc).bind .pure
  | some body =>
    rw [piecesOfElse, List.cons_append] at hw
    obtain ⟨first, more, rfl, hf, hm⟩ := composed_cons.1 hw
    refine ⟨"else", [], first, more, hf, rfl, .inl rfl, ?_⟩
    rw [List.append_assoc] at hb
    rw [if_pos rfl, List.append_assoc]
    obtain ⟨gap, space, hne, hg, hne', hs, e⟩ := written_keywordTag hf (more ++ after)
    have shorter : (more ++ after).length < bound := by
      rw [List.length_append] at hb
      omega
    have run := takes_bodyUntil (h body rfl) hk hm shorter
    rw [e]
    exact (takes_openTag (by decide) hne hg (endsWord_of_isBlank hs hne')).bind
      ((takes_closeTag hs).bind (run.bind .pure))

/-! ### Tags with a body -/

/-- The text of an expression starts with a parenthesis only if its first token is one. -/
theorem head?_ne_parenthesis {tokens : List Token} (hl : Led 0 tokens) (hp : Plain tokens)
    (hn : startsWithParenthesis tokens = false) (hw : Written tokens chars) (rest : List Char) :
    (chars ++ rest).head? ≠ some '(' := by
  obtain ⟨token, more, rfl, hl⟩ := hl
  obtain ⟨first, gap, _, rfl, ht, -, -, -⟩ := written_cons.1 hw
  cases Token.head_of_written ht (hp token List.mem_cons_self) with
  | word hc =>
    rintro ⟨⟩
    cases hc
  | digit hc =>
    rintro ⟨⟩
    cases hc
  | quote hc => rcases hc with rfl | rfl <;> rintro ⟨⟩
  | mark hs =>
    rcases hl with hl | ⟨rfl, -⟩
    · simp only [List.mem_cons, List.not_mem_nil, or_false] at hl
      rcases hl with rfl | rfl | rfl
      · cases hn
      · rintro ⟨⟩
      · rintro ⟨⟩
    · rintro ⟨⟩

/-- Parameters that are left out are not found in the call. -/
theorem takes_optionalParams {parameters : List Param} (hn : ∀ p ∈ parameters, isIdentifier p.name)
    (hd : ∀ p ∈ parameters, ∀ e ∈ p.default, Printable e) (hp : Printable e) (hg : IsBlank gap) {call : List Char}
    (hw : Written (if parameters.isEmpty && !startsWithParenthesis (tokensAt extra 0 e) then [] else
      tokensOfParams extra parameters) chars) (hc : Written (tokensAt extra 0 e) call)
    (hb : Fits depth bound (chars ++ (call ++ text))) : ∃ space, IsBlank space ∧
      Takes (optionalParams (expression depth) bound) (gap ++ (chars ++ (call ++ text))) parameters
        (space ++ (call ++ text)) := by
  split at hw
  · rename_i none
    simp only [Bool.and_eq_true, List.isEmpty_iff, Bool.not_eq_true'] at none
    obtain ⟨rfl, none⟩ := none
    cases hw
    have solid : IsSolid (call ++ text) := (starts_of_led (led_tokensAt hp 0) (plain_tokensAt hp 0) hc text).solid
    have other := head?_ne_parenthesis (led_tokensAt hp 0) (plain_tokensAt hp 0) none hc text
    exact ⟨[], isBlank_nil, (takes_skipBlank hg solid).bind (.no (takes_peek_ne rfl other) .pure)⟩
  · obtain ⟨space, hs, run⟩ := takes_params hn hd hw hb
    have solid := (stops_of_written hw (by decide : "(" ∈ symbols) (by simp) (by decide : ∀ k ∈ some 9, k < 10)
      (call ++ text)).solid
    exact ⟨space, hs, (takes_skipBlank hg solid).bind (.yes (takes_peek_bracketed hw (call ++ text)) run)⟩

section Tags

variable {body : List Node} (h : ReadsBody extra body) (hg : IsBlank gap)
  (hb : (chars ++ ("%\x7d".toList ++ (text ++ after))).length < bound)
include h hg hb

theorem takes_blockTag {name : String} (hn : isIdentifier name) (hw : Written [.word name] chars)
    (hc : Composed (piecesOfAll extra body ++ [.tag "endblock" []]) text) :
    Takes (blockTag (nodes bound)) (gap ++ (chars ++ ("%\x7d".toList ++ (text ++ after)))) (.block name body)
    after := by
  obtain ⟨space, hs, hne, rfl⟩ := written_keyword hw
  obtain ⟨inside, last, rfl, hi, hl⟩ := composed_append.1 hc
  obtain ⟨close, _, rfl, ht, hnil⟩ := composed_cons.1 hl
  cases hnil
  simp only [List.append_assoc, List.nil_append] at hb ⊢
  have shorter : (inside ++ (close ++ after)).length < bound := by
    simp only [List.length_append] at hb ⊢
    omega
  have run := takes_body h (by decide) hi ht (List.mem_singleton_self _) (by decide) shorter
  refine (takes_identifier hn hg (endsWord_of_isBlank hs hne)).bind ((takes_closeTag hs).bind (run.bind ?_))
  obtain ⟨before, behind, hne', hbefore, hne'', hbehind, e⟩ := written_keywordTag ht after
  rw [e]
  obtain ⟨c, before, rfl⟩ := List.exists_cons_of_ne_nil hne'
  refine (takes_expect "\x7b%").bind ((takes_dash (hbefore c List.mem_cons_self)).bind ?_)
  refine (takes_expectWord (by decide) hbefore (endsWord_of_isBlank hbehind hne'')).bind ?_
  refine (takes_skipBlank hbehind stops_close.solid).bind (.rest ?_)
  exact takes_close.bind .pure

theorem takes_filterTag {name : String} {args : List Expr} (hn : isIdentifier name) (hp : ∀ e ∈ args, Printable e)
    (hw : Written (.word name :: bracketed "(" (tokensOfAll extra args) ")") chars)
    (hd : (chars ++ ("%\x7d".toList ++ (text ++ after))).length < depth)
    (hc : Composed (piecesOfAll extra body ++ [.tag "endfilter" []]) text) :
    Takes (filterTag (nodes bound) (expression depth) depth) (gap ++ (chars ++ ("%\x7d".toList ++ (text ++ after))))
      (.filterBlock name args body) after := by
  obtain ⟨space, arguments, hne, hs, ha, rfl⟩ := written_word_cons hw
  simp only [List.append_assoc] at hb hd ⊢
  have fits : Fits depth depth (arguments ++ ("%\x7d".toList ++ (text ++ after))) := by
    simp only [Fits, List.length_append] at hd ⊢
    omega
  have shorter : (text ++ after).length < bound := by
    simp only [List.length_append] at hb ⊢
    omega
  obtain ⟨behind, hbehind, run⟩ := takes_optionalArguments hp (fun e m => rereads (hp e m)) ha hs fits
  have inside := takes_bodyUntil h (by decide) hc shorter
  refine (takes_identifier hn hg (endsWord_of_isBlank hs hne)).bind (run.bind ?_)
  exact (takes_closeTag hbehind).bind (inside.bind .pure)

section Params

variable {parameters : List Param} (hn : ∀ p ∈ parameters, isIdentifier p.name)
  (hd : ∀ p ∈ parameters, ∀ e ∈ p.default, Printable e)
  (hl : (chars ++ ("%\x7d".toList ++ (text ++ after))).length < depth)
include hn hd hl

theorem takes_defineTag {name : String} (hname : isIdentifier name)
    (hw : Written (.word name :: tokensOfParams extra parameters) chars)
    (hc : Composed (piecesOfAll extra body ++ [.tag "endmacro" []]) text) :
    Takes (defineTag (nodes bound) (expression depth) depth) (gap ++ (chars ++ ("%\x7d".toList ++ (text ++ after))))
      (.define name parameters body) after := by
  obtain ⟨space, list, hne, hs, hlist, rfl⟩ := written_word_cons hw
  simp only [List.append_assoc] at hb hl ⊢
  have fits : Fits depth depth (list ++ ("%\x7d".toList ++ (text ++ after))) := by
    simp only [Fits, List.length_append] at hl ⊢
    omega
  have shorter : (text ++ after).length < bound := by
    simp only [List.length_append] at hb ⊢
    omega
  obtain ⟨behind, hbehind, run⟩ := takes_params hn hd hlist fits
  have inside := takes_bodyUntil h (by decide) hc shorter
  have solid := (stops_of_written hlist (by decide : "(" ∈ symbols) (by simp) (by decide : ∀ k ∈ some 9, k < 10)
    ("%\x7d".toList ++ (text ++ after))).solid
  refine (takes_identifier hname hg (endsWord_of_isBlank hs hne)).bind ((takes_skipBlank hs solid).bind (run.bind ?_))
  exact (takes_closeTag hbehind).bind (inside.bind .pure)

theorem takes_callTag (hp : Printable e) (hw : Written (tokensOfCall extra parameters e) chars)
    (hc : Composed (piecesOfAll extra body ++ [.tag "endcall" []]) text) :
    Takes (callTag (nodes bound) (expression depth) depth) (gap ++ (chars ++ ("%\x7d".toList ++ (text ++ after))))
      (.callBlock parameters e body) after := by
  obtain ⟨list, call, rfl, hlist, hcall⟩ := written_append.1 hw
  rw [List.append_assoc] at hb hl ⊢
  have shorter : (text ++ after).length < bound ∧ (call ++ ("%\x7d".toList ++ (text ++ after))).length < depth := by
    simp only [List.length_append] at hb hl ⊢
    omega
  obtain ⟨behind, hbehind, run⟩ := takes_optionalParams hn hd hp hg hlist hcall ⟨hl.le, hl⟩
  have inside := takes_bodyUntil h (by decide) hc shorter.1
  exact run.bind ((takes_expression hp hcall hbehind shorter.2 stops_close).bind (takes_close.bind (inside.bind .pure)))

end Params

theorem takes_loopTag {targets : List String} {otherwise : Option (List Node)} (hne : targets ≠ [])
    (hn : ∀ name ∈ targets, isIdentifier name) (hp : Printable e) (ho : ∀ body ∈ otherwise, ReadsBody extra body)
    (hw : Written (commaSeparated (targets.map (fun name => [.word name])) ++ .word "in" :: tokensAt extra 1 e) chars)
    (hd : (chars ++ ("%\x7d".toList ++ (text ++ after))).length < depth)
    (hc : Composed (piecesOfAll extra body ++ (piecesOfElse extra otherwise ++ [.tag "endfor" []])) text) :
    Takes (loopTag (nodes bound) (expression depth) depth) (gap ++ (chars ++ ("%\x7d".toList ++ (text ++ after))))
      (.loop targets e body otherwise) after := by
  obtain ⟨names, _, rfl, hnames, hin⟩ := written_append.1 hw
  obtain ⟨space, items, hne', hs, hitems, rfl⟩ := written_word_cons hin
  obtain ⟨inside, last, rfl, hinside, hlast⟩ := composed_append.1 hc
  simp only [List.append_assoc] at hb hd ⊢
  have behind : (last ++ after).length < bound := by
    simp only [List.length_append] at hb ⊢
    omega
  obtain ⟨keyword, tokens, first, more, ht, rfl, hk, run⟩ := takes_otherwiseBody ho (by decide) (by decide) hlast behind
    (Node.loop targets e body)
  rw [List.append_assoc] at hb hd run ⊢
  have fits : names.length < depth ∧ Fits depth depth (items ++
    ("%\x7d".toList ++ (inside ++ (first ++ (more ++ after))))) := by
    simp only [Fits, List.length_append] at hd ⊢
    omega
  have shorter : (inside ++ (first ++ (more ++ after))).length < bound := by
    simp only [List.length_append] at hb ⊢
    omega
  have own : isIdentifier "in" := by decide
  have word : EndsWord (space ++ (items ++ ("%\x7d".toList ++ (inside ++ (first ++ (more ++ after)))))) :=
    endsWord_of_isBlank hs hne'
  have list := takes_listOf hne (fun name m _ hw => nameAt_identifier (hn name m) hw) hnames hg fits.1
    (isSolid_of_isIdentifier own) (head?_ne_of_isIdentifier own rfl)
      (startsWithWord_of_ne (by decide) own (by decide) word)
  have sequence := (takes_tokensAt hp (by decide) hitems).reads hs fits.2 fits.2.2 (stops_close.mono (Nat.zero_le 1))
  have closing : keyword ∈ closingKeywords ∧ keyword ∈ ["else", "endfor"] := by
    rcases hk with rfl | rfl <;> decide
  have nested := takes_body h closing.1 hinside ht closing.2 (by decide) shorter
  refine list.bind ((takes_expectWord_here own word).bind (sequence.bind (takes_close.bind (nested.bind ?_))))
  exact run

end Tags

/-- The arms of an `if`, from the body of the first. -/
theorem takes_arms {arms : List (Expr × List Node)} {condition : Expr} {body : List Node}
    {otherwise : Option (List Node)}
    (hp : ∀ arm ∈ arms, Printable arm.1) (h : ReadsBody extra body) (ha : ∀ arm ∈ arms, ReadsBody extra arm.2)
    (ho : ∀ body ∈ otherwise, ReadsBody extra body)
    (hc : Composed (piecesOfAll extra body ++
      (piecesOfArms extra "elif" arms ++ (piecesOfElse extra otherwise ++ [.tag "endif" []]))) chars)
    (hb : (chars ++ after).length < bound) (hd : (chars ++ after).length < depth) {rounds : Nat}
    (hr : chars.length < rounds) :
    Takes (Parser.arms (nodes bound) (expression depth) rounds condition) (chars ++ after)
      ((condition, body) :: arms, otherwise) after := by
  induction arms generalizing condition body chars rounds with
  | nil =>
    obtain ⟨rounds, rfl⟩ := Nat.exists_eq_succ_of_ne_zero (by omega : rounds ≠ 0)
    obtain ⟨inside, last, rfl, hinside, hlast⟩ := composed_append.1 hc
    rw [piecesOfArms, List.nil_append] at hlast
    rw [List.append_assoc] at hb ⊢
    have shorter : (last ++ after).length < bound := by
      rw [List.length_append] at hb
      omega
    obtain ⟨keyword, tokens, first, more, ht, rfl, hk, run⟩ :=
      takes_otherwiseBody ho (by decide) (by decide) hlast shorter
      (fun otherwise => ([(condition, body)], otherwise))
    rw [List.append_assoc] at run hb ⊢
    have closing : keyword ∈ closingKeywords ∧ keyword ∈ ["elif", "elseif", "else", "endif"] ∧
        ¬ (some keyword = some "elif" || some keyword = some "elseif") = true := by
      rcases hk with rfl | rfl <;> decide
    have own := takes_body h closing.1 hinside ht closing.2.1 (by decide) hb
    refine own.bind ?_
    dsimp only
    rw [if_neg closing.2.2]
    exact run
  | cons arm arms ih =>
    obtain ⟨rounds, rfl⟩ := Nat.exists_eq_succ_of_ne_zero (by omega : rounds ≠ 0)
    obtain ⟨next, nextBody⟩ := arm
    rw [piecesOfArms, List.cons_append, List.append_assoc] at hc
    obtain ⟨inside, last, rfl, hinside, hlast⟩ := composed_append.1 hc
    obtain ⟨tag, more, rfl, ht, hm⟩ := composed_cons.1 hlast
    simp only [List.append_assoc] at hb hd ⊢
    have own := takes_body h (by decide) hinside ht (by decide : "elif" ∈ ["elif", "elseif", "else", "endif"])
      (by decide) hb
    obtain ⟨first, others⟩ := List.forall_mem_cons.1 ha
    obtain ⟨printable, rest⟩ := List.forall_mem_cons.1 hp
    obtain ⟨gap, space, test, hne, hg, hne', hs, htest, e⟩ := written_tag ht (more ++ after)
    have shorter : (more ++ after).length < bound ∧ (more ++ after).length < depth := by
      simp only [List.length_append] at hb hd ⊢
      omega
    have fits : (test ++ ("%\x7d".toList ++ (more ++ after))).length < depth := by
      rw [List.length_append, e] at hd
      simp only [List.length_append] at hd ⊢
      omega
    have fewer : more.length < rounds := by
      have := List.length_pos_iff.2 hne
      have whole := congrArg List.length e
      simp only [List.length_append] at hr whole
      omega
    have arms : Takes (Parser.arms (nodes bound) (expression depth) rounds next) (more ++ after)
        ((next, nextBody) :: arms, otherwise) after := ih rest first others hm shorter.1 shorter.2 fewer
    have again : (decide (some "elif" = some "elif") || decide (some "elif" = some "elseif")) = true := by decide
    refine own.bind ?_
    dsimp only
    rw [if_pos again, e]
    refine (takes_openTag (by decide) hne hg (endsWord_of_isBlank hs hne')).bind ?_
    exact (takes_expression printable htest hs fits stops_close).bind (takes_close.bind (arms.bind .pure))

theorem takes_branchTag {arms : List (Expr × List Node)} {body : List Node} {otherwise : Option (List Node)}
    (hp : ∀ arm ∈ (e, body) :: arms, Printable arm.1) (h : ∀ arm ∈ (e, body) :: arms, ReadsBody extra arm.2)
    (ho : ∀ body ∈ otherwise, ReadsBody extra body) (hg : IsBlank gap) (hw : Written (tokensAt extra 0 e) chars)
    (hc : Composed (piecesOfAll extra body ++
      (piecesOfArms extra "elif" arms ++ (piecesOfElse extra otherwise ++ [.tag "endif" []]))) text)
    (hb : (chars ++ ("%\x7d".toList ++ (text ++ after))).length < bound) :
    Takes (branchTag (nodes bound) (expression (bound + 1)) (bound + 1))
    (gap ++ (chars ++ ("%\x7d".toList ++ (text ++ after))))
      (.branch ((e, body) :: arms) otherwise) after := by
  obtain ⟨first, others⟩ := List.forall_mem_cons.1 hp
  obtain ⟨own, more⟩ := List.forall_mem_cons.1 h
  have shorter : (text ++ after).length < bound ∧ text.length < bound + 1 := by
    simp only [List.length_append] at hb ⊢
    omega
  have condition := takes_expression first hw hg (Nat.lt_succ_of_lt hb) stops_close
  have all : Takes (Parser.arms (nodes bound) (expression (bound + 1)) (bound + 1) e) (text ++ after)
      ((e, body) :: arms, otherwise) after :=
    takes_arms others own more ho hc shorter.1 (Nat.lt_succ_of_lt shorter.1) shorter.2
  exact condition.bind (takes_close.bind (all.bind .pure))

/-! ### Templates -/

/-- Every node but a text is read from its own text: by induction on the node, as its bodies are read node by node. -/
theorem readsNode {n : Node} (h : Composable n) (ht : n.isText = false) : ReadsNode extra n := by
  induction h with
  | text => cases ht
  | output hp => exact readsNode_output hp
  | @branch arms otherwise hne hp hs hc ho hoc ih iho =>
    obtain ⟨⟨condition, body⟩, arms, rfl⟩ := List.exists_cons_of_ne_nil hne
    have bodies : ∀ arm ∈ (condition, body) :: arms, ReadsBody extra arm.2 :=
      fun arm m => readsBody (hc arm m) (hs arm m) fun n m' => ih arm m n m'
    have last : ∀ body ∈ otherwise, ReadsBody extra body :=
      fun body m => readsBody (hoc body m) (ho body m) (iho body m)
    refine readsNode_of_tag (p := fun bound => branchTag (nodes bound) (expression (bound + 1)) (bound + 1))
      (by rw [pieces, piecesOfArms, List.cons_append, List.append_assoc]) (by decide)
      (fun _ => ⟨_, rfl, fun _ => rfl⟩) ?_
    intro bound gap chars text after hg hw hm hb
    exact takes_branchTag hp bodies last hg hw hm hb
  | inclusion ignoreMissing withContext hp =>
    refine readsNode_of_tag (p := fun bound => inclusionTag (expression (bound + 1))) (by rw [pieces]) (by decide)
      (fun _ => ⟨_, rfl, fun _ => rfl⟩) fun bound gap chars text after hg hw hm hb => ?_
    cases hm
    exact takes_inclusionTag hg (Nat.lt_succ_of_lt hb) hp hw
  | block hn hs hc ih =>
    refine readsNode_of_tag (p := fun bound => blockTag (nodes bound)) (by rw [pieces]) (by decide)
      (fun _ => ⟨_, rfl, fun _ => rfl⟩) fun bound gap chars text after hg hw hm hb => ?_
    exact takes_blockTag (readsBody hc hs ih) hg hb hn hw hm
  | @loop targets items body otherwise hne hn hp hs hc ho hoc ih iho =>
    have last : ∀ body ∈ otherwise, ReadsBody extra body :=
      fun body m => readsBody (hoc body m) (ho body m) (iho body m)
    refine readsNode_of_tag (p := fun bound => loopTag (nodes bound) (expression (bound + 1)) (bound + 1))
      (by rw [pieces])
      (by decide) (fun _ => ⟨_, rfl, fun _ => rfl⟩) fun bound gap chars text after hg hw hm hb => ?_
    exact takes_loopTag (readsBody hc hs ih) hg hb hne hn hp last hw (Nat.lt_succ_of_lt hb) hm
  | assign hn hp =>
    refine readsNode_of_tag (p := fun bound => assignTag (expression (bound + 1))) (by rw [pieces]) (by decide)
      (fun _ => ⟨_, rfl, fun _ => rfl⟩) fun bound gap chars text after hg hw hm hb => ?_
    cases hm
    exact takes_assignTag hg (Nat.lt_succ_of_lt hb) hn hp hw
  | extend hp =>
    refine readsNode_of_tag (p := fun bound => extendTag (expression (bound + 1))) (by rw [pieces]) (by decide)
      (fun _ => ⟨_, rfl, fun _ => rfl⟩) fun bound gap chars text after hg hw hm hb => ?_
    cases hm
    exact takes_extendTag hg (Nat.lt_succ_of_lt hb) hp hw
  | define hname hn hd hs hc ih =>
    refine readsNode_of_tag (p := fun bound => defineTag (nodes bound) (expression (bound + 1)) (bound + 1))
      (by rw [pieces])
      (by decide) (fun _ => ⟨_, rfl, fun _ => rfl⟩) fun bound gap chars text after hg hw hm hb => ?_
    exact takes_defineTag (readsBody hc hs ih) hg hb hn hd (Nat.lt_succ_of_lt hb) hname hw hm
  | callBlock hn hd hp hs hc ih =>
    refine readsNode_of_tag (p := fun bound => callTag (nodes bound) (expression (bound + 1)) (bound + 1))
      (by rw [pieces])
      (by decide) (fun _ => ⟨_, rfl, fun _ => rfl⟩) fun bound gap chars text after hg hw hm hb => ?_
    exact takes_callTag (readsBody hc hs ih) hg hb hn hd (Nat.lt_succ_of_lt hb) hp hw hm
  | filterBlock hn hp hs hc ih =>
    refine readsNode_of_tag (p := fun bound => filterTag (nodes bound) (expression (bound + 1)) (bound + 1))
      (by rw [pieces])
      (by decide) (fun _ => ⟨_, rfl, fun _ => rfl⟩) fun bound gap chars text after hg hw hm hb => ?_
    exact takes_filterTag (readsBody hc hs ih) hg hb hn hp hw (Nat.lt_succ_of_lt hb) hm
  | importAs hp hn =>
    refine readsNode_of_tag (p := fun bound => importTag (expression (bound + 1))) (by rw [pieces]) (by decide)
      (fun _ => ⟨_, rfl, fun _ => rfl⟩) fun bound gap chars text after hg hw hm hb => ?_
    cases hm
    exact takes_importTag hg (Nat.lt_succ_of_lt hb) hn hp hw
  | importFrom hp hne hn =>
    refine readsNode_of_tag (p := fun bound => importFromTag (expression (bound + 1)) (bound + 1)) (by rw [pieces])
      (by decide) (fun _ => ⟨_, rfl, fun _ => rfl⟩) fun bound gap chars text after hg hw hm hb => ?_
    cases hm
    exact takes_importFromTag hg (Nat.lt_succ_of_lt hb) hne hn hp hw (Nat.lt_succ_of_lt hb)

end Parser

/-! ### A text for every template -/

def Piece.spelling : Piece → List Char
  | .text content => content.toList
  | .output tokens => "\x7b\x7b".toList ++ ([' '] ++ (spelled tokens ++ "\x7d\x7d".toList))
  | .tag keyword tokens => "\x7b%".toList ++ ([' '] ++ (spelled (.word keyword :: tokens) ++ "%\x7d".toList))

/-- The text with one blank behind each opening delimiter and each token. -/
def typeset (pieces : List Piece) : List Char :=
  pieces.flatMap Piece.spelling

/-- The tokens of the piece all have a text. -/
def Piece.IsSpelt : Piece → Prop
  | .text _ => True
  | .output tokens | .tag _ tokens => Spelt tokens

theorem Piece.written_spelling {piece : Piece} (h : piece.IsSpelt) : piece.Written piece.spelling := by
  have blank : IsBlank [' '] := List.forall_mem_singleton.2 (by decide)
  cases piece with
  | text content => exact .text content
  | output tokens => exact .output nofun blank (written_spelled h)
  | tag keyword tokens => exact .tag nofun blank (written_spelled (List.forall_mem_cons.2 ⟨.word keyword, h⟩))

theorem composed_typeset {pieces : List Piece} (h : ∀ piece ∈ pieces, piece.IsSpelt) :
    Composed pieces (typeset pieces) := by
  induction pieces with
  | nil => exact .nil
  | cons piece pieces ih =>
    obtain ⟨first, others⟩ := List.forall_mem_cons.1 h
    rw [typeset, List.flatMap_cons]
    exact .cons (Piece.written_spelling first) (ih others)

section Spelling

variable {extra : Expr → Bool}

theorem spelt_cons {token : Token} {tokens : List Token} (ht : token.Written token.spelling) (h : Spelt tokens) :
    Spelt (token :: tokens) :=
  List.forall_mem_cons.2 ⟨ht, h⟩

theorem Spelt.append {first second : List Token} (h : Spelt first) (h' : Spelt second) : Spelt (first ++ second) :=
  List.forall_mem_append.2 ⟨h, h'⟩

theorem spelt_nil : Spelt [] :=
  nofun

theorem spelt_tokensAt {e : Expr} (h : Printable e) (level : Nat) : Spelt (tokensAt extra level e) :=
  (plain_tokensAt h level).spelt

theorem spelt_commaSeparated {items : List (List Token)} (h : ∀ item ∈ items, Spelt item) :
    Spelt (commaSeparated items) :=
  forall_mem_commaSeparated (p := fun t => t.Written t.spelling) (.mark ",") h

theorem spelt_tokensOfParams {params : List Param} (h : ∀ p ∈ params, ∀ e ∈ p.default, Printable e) :
    Spelt (tokensOfParams extra params) := by
  refine spelt_cons (.mark "(") ((spelt_commaSeparated fun item m => ?_).append (spelt_cons (.mark ")") spelt_nil))
  obtain ⟨⟨name, default⟩, own, rfl⟩ := List.mem_map.1 m
  refine spelt_cons (.word name) ?_
  cases default with
  | none => exact spelt_nil
  | some e => exact spelt_cons (.mark "=") (spelt_tokensAt (h ⟨name, some e⟩ own e rfl) 0)

theorem isSpelt_piecesOfAll {ns : List Node} (h : ∀ n ∈ ns, ∀ piece ∈ pieces extra n, piece.IsSpelt) :
    ∀ piece ∈ piecesOfAll extra ns, piece.IsSpelt := by
  induction ns with
  | nil => rw [piecesOfAll_nil]; exact List.forall_mem_nil _
  | cons n ns ih =>
    obtain ⟨first, others⟩ := List.forall_mem_cons.1 h
    rw [piecesOfAll_cons]
    exact List.forall_mem_append.2 ⟨first, ih others⟩

theorem isSpelt_piecesOfElse {otherwise : Option (List Node)}
    (h : ∀ body ∈ otherwise, ∀ n ∈ body, ∀ piece ∈ pieces extra n, piece.IsSpelt) :
    ∀ piece ∈ piecesOfElse extra otherwise, piece.IsSpelt := by
  cases otherwise with
  | none => rw [piecesOfElse]; exact List.forall_mem_nil _
  | some body =>
    rw [piecesOfElse]
    exact List.forall_mem_cons.2 ⟨spelt_nil, isSpelt_piecesOfAll (h body rfl)⟩

theorem isSpelt_piecesOfArms {arms : List (Expr × List Node)} (hp : ∀ arm ∈ arms, Printable arm.1)
    (h : ∀ arm ∈ arms, ∀ n ∈ arm.2, ∀ piece ∈ pieces extra n, piece.IsSpelt) (keyword : String) :
    ∀ piece ∈ piecesOfArms extra keyword arms, piece.IsSpelt := by
  induction arms generalizing keyword with
  | nil => rw [piecesOfArms]; exact List.forall_mem_nil _
  | cons arm arms ih =>
    obtain ⟨condition, body⟩ := arm
    obtain ⟨printable, rest⟩ := List.forall_mem_cons.1 hp
    obtain ⟨first, others⟩ := List.forall_mem_cons.1 h
    rw [piecesOfArms]
    have bodies := List.forall_mem_append.2 ⟨isSpelt_piecesOfAll first, ih rest others "elif"⟩
    exact List.forall_mem_cons.2 ⟨spelt_tokensAt printable 0, bodies⟩

/-- A tag, its body and its end tag. -/
theorem isSpelt_body {keyword closing : String} {tokens : List Token} {body : List Piece} (ht : Spelt tokens)
    (hb : ∀ piece ∈ body, piece.IsSpelt) :
    ∀ piece ∈ .tag keyword tokens :: (body ++ [.tag closing []]), piece.IsSpelt :=
  List.forall_mem_cons.2 ⟨ht, List.forall_mem_append.2 ⟨hb, List.forall_mem_singleton.2 spelt_nil⟩⟩

theorem isSpelt_pieces {n : Node} (h : Composable n) : ∀ piece ∈ pieces extra n, piece.IsSpelt := by
  induction h with
  | text => rw [pieces]; exact List.forall_mem_singleton.2 trivial
  | output hp => rw [pieces]; exact List.forall_mem_singleton.2 (spelt_tokensAt hp 0)
  | branch _ hp _ _ _ _ ih iho =>
    rw [pieces]
    have last : ∀ piece ∈ [Piece.tag "endif" []], piece.IsSpelt := List.forall_mem_singleton.2 spelt_nil
    have behind := List.forall_mem_append.2 ⟨isSpelt_piecesOfElse iho, last⟩
    exact List.forall_mem_append.2 ⟨isSpelt_piecesOfArms hp ih "if", behind⟩
  | inclusion ignoreMissing withContext hp =>
    rw [pieces]
    have modifiers : Spelt (inclusionModifiers ignoreMissing withContext) := by
      refine Spelt.append ?_ ?_
      · cases ignoreMissing with
        | true => exact spelt_cons (.word "ignore") (spelt_cons (.word "missing") spelt_nil)
        | false => exact spelt_nil
      · cases withContext with
        | true => exact spelt_nil
        | false => exact spelt_cons (.word "without") (spelt_cons (.word "context") spelt_nil)
    exact List.forall_mem_singleton.2 ((spelt_tokensAt hp 0).append modifiers)
  | @block name _ _ _ _ ih =>
    rw [pieces]
    exact isSpelt_body (spelt_cons (.word name) spelt_nil) (isSpelt_piecesOfAll ih)
  | loop _ _ hp _ _ _ _ ih iho =>
    rw [pieces, ← List.append_assoc]
    refine isSpelt_body ?_ (List.forall_mem_append.2 ⟨isSpelt_piecesOfAll ih, isSpelt_piecesOfElse iho⟩)
    refine (spelt_commaSeparated fun item m => ?_).append (spelt_cons (.word "in") (spelt_tokensAt hp 1))
    obtain ⟨name, -, rfl⟩ := List.mem_map.1 m
    exact spelt_cons (.word name) spelt_nil
  | @assign name _ _ hp =>
    rw [pieces]
    exact List.forall_mem_singleton.2 (spelt_cons (.word name) (spelt_cons (.mark "=") (spelt_tokensAt hp 0)))
  | extend hp => rw [pieces]; exact List.forall_mem_singleton.2 (spelt_tokensAt hp 0)
  | @define name _ _ _ _ hd _ _ ih =>
    rw [pieces]
    exact isSpelt_body (spelt_cons (.word name) (spelt_tokensOfParams hd)) (isSpelt_piecesOfAll ih)
  | callBlock _ hd hp _ _ ih =>
    rw [pieces, tokensOfCall]
    refine isSpelt_body (Spelt.append ?_ (spelt_tokensAt hp 0)) (isSpelt_piecesOfAll ih)
    split
    · exact spelt_nil
    · exact spelt_tokensOfParams hd
  | @filterBlock name _ _ _ hp _ _ ih =>
    rw [pieces]
    refine isSpelt_body (spelt_cons (.word name) (Plain.spelt ?_)) (isSpelt_piecesOfAll ih)
    exact plain_items (fun e m => plain_tokens (hp e m)) (by decide) (by decide)
  | @importAs _ name hp =>
    rw [pieces]
    have words : Spelt [.word "as", .word name] := spelt_cons (.word "as") (spelt_cons (.word name) spelt_nil)
    exact List.forall_mem_singleton.2 ((spelt_tokensAt hp 0).append words)
  | importFrom hp =>
    rw [pieces]
    refine List.forall_mem_singleton.2 ((spelt_tokensAt hp 0).append (spelt_cons (.word "import") ?_))
    refine spelt_commaSeparated fun item m => ?_
    obtain ⟨⟨name, other⟩, -, rfl⟩ := List.mem_map.1 m
    refine spelt_cons (.word name) ?_
    split
    · exact spelt_nil
    · exact spelt_cons (.word "as") (spelt_cons (.word other) spelt_nil)

end Spelling

/-- A template is read as it was, with any blanks in its tags and any parentheses around its expressions; one such text
has a blank behind each token. -/
theorem parse_of_composed (extra : Expr → Bool) {ns : List Node} (hc : ∀ n ∈ ns, Composable n) (hs : Separate ns) :
    Composed (piecesOfAll extra ns) (typeset (piecesOfAll extra ns)) ∧
      ∀ chars, Composed (piecesOfAll extra ns) chars → parse (String.ofList chars) = .ok ns := by
  have body : Parser.ReadsBody extra ns := Parser.readsBody hc hs fun n m => Parser.readsNode (hc n m)
  exact ⟨composed_typeset (isSpelt_piecesOfAll fun n m => isSpelt_pieces (hc n m)), fun chars hw =>
    Parser.parse_of_readsBody body hw⟩

set_option maxRecDepth 4000 in
/-- Both `else` tags stand in the loop: one ends the second arm of the `if` and the other the body of the loop. -/
theorem parse_of_nested_tags :
    let arms : List (Expr × List Node) := [(.var "k", [.text "x"]), (.binary .add (.var "v") (.literal (.int 1)), [])]
    let ns : List Node := [.text "Hi ",
      .loop ["k", "v"] (.inlineIf (.var "a") (.var "b") none) [.branch arms (some [.output (.var "v")])]
      (some [.text "-"]),
      .callBlock [⟨"n", some (.literal (.int 2))⟩] (.call (.var "f") [])
        [.inclusion (.literal (.string "p.html")) true false]]
    (∀ n ∈ ns, Composable n) ∧ Separate ns ∧
      parse ("Hi \x7b% for k , v in ( ( a ) if ( b ) ) %\x7d\x7b% if ( k ) %\x7dx\x7b% elif ( ( v ) + ( 1 ) ) %\x7d" ++
        "\x7b% else %\x7d\x7b\x7b ( v ) \x7d\x7d\x7b% endif %\x7d\x7b% else %\x7d-\x7b% endfor %\x7d" ++
        "\x7b% call ( n = ( 2 ) ) ( ( f ) ( ) ) %\x7d\x7b% include ( \"p.html\" ) ignore missing without context %\x7d"
        ++
        "\x7b% endcall %\x7d") = .ok ns := by
  intro arms ns
  have var (name : String) (h : isIdentifier name ∧ name ∉ reserved) : Printable (.var name) := .var h.1 h.2
  have text (content : String) (h : content ≠ "" ∧ (∀ start ∈ openings, ¬ start <:+: content.toList) ∧
      content.toList.getLast? ≠ some '{') : Composable (.text content) := .text h.1 ⟨h.2.1, h.2.2⟩
  have one (n : Node) : Separate [n] := List.isChain_singleton n
  have both {α : Type} {p : α → Prop} {a b : α} (ha : p a) (hb : p b) : ∀ x ∈ [a, b], p x :=
    List.forall_mem_cons.2 ⟨ha, List.forall_mem_singleton.2 hb⟩
  have single {n : Node} (h : Composable n) : ∀ n' ∈ [n], Composable n' := List.forall_mem_singleton.2 h
  have last {n : Node} {p : List Node → Prop} (h : p [n]) : ∀ body ∈ some [n], p body := by
    rintro body ⟨⟩
    exact h
  have conditions : ∀ arm ∈ arms, Printable arm.1 :=
    both (var "k" (by decide)) (.binary _ (var "v" (by decide)) (.int (by decide)))
  have separate : ∀ arm ∈ arms, Separate arm.2 := both (one _) List.isChain_nil
  have bodies : ∀ arm ∈ arms, ∀ n ∈ arm.2, Composable n := both (single (text "x" (by decide))) nofun
  have branch : Composable (.branch arms (some [.output (.var "v")])) :=
    .branch nofun conditions separate bodies (last (one _)) (last (single (.output (var "v" (by decide)))))
  have loop : Composable (ns[1]) :=
    .loop nofun (by decide) (.inlineIf (var "a" (by decide)) (var "b" (by decide)) nofun) (one _) (single branch)
      (last (one _)) (last (single (text "-" (by decide))))
  have call : Composable (ns[2]) := by
    refine .callBlock (by decide) (List.forall_mem_singleton.2 ?_) (.call (var "f" (by decide)) nofun) (one _) ?_
    · rintro e ⟨⟩
      exact .int (by decide)
    · exact single (.inclusion true false (.string _))
  have composable : ∀ n ∈ ns, Composable n :=
    List.forall_mem_cons.2 ⟨text "Hi " (by decide), both loop call⟩
  have apart : Separate ns := by
    refine List.isChain_cons.2 ⟨?_, List.isChain_cons.2 ⟨?_, one _⟩⟩
    · rintro n ⟨⟩ -
      rfl
    · rintro n ⟨⟩ ⟨⟩
  have composed := parse_of_composed (fun _ => true) composable apart
  refine ⟨composable, apart, ?_⟩
  rw [← composed.2 _ composed.1]
  refine congrArg parse ((Text.append_eq_ofList (Text.append_eq_ofList (Text.append_eq_ofList rfl rfl) rfl) rfl).trans
    (congrArg String.ofList ?_))
  rfl

end Folio.Template
