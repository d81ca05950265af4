import Folio.Proofs.Template.Operands

/-! Printed expressions are read back, whatever blanks stand between their tokens. -/
namespace Folio.Template.Parser

variable {text gap : List Char}

/-! ### Expressions -/

/-- Whatever text the tokens of the expression have is read as the expression at its own level. -/
def Rereads (extra : Expr → Bool) (e : Expr) : Prop :=
  ∀ chars, Written (tokens extra e) chars → At e.level chars e

section Expressions

variable {extra : Expr → Bool} {L : Nat} {e : Expr} {chars : List Char}

theorem at_parenthesized (h : At 0 chars e) {space : List Char} (hg : IsBlank gap) (hs : IsBlank space) :
    At 9 ('(' :: (gap ++ (chars ++ ')' :: space))) e := by
  refine at_of_primary fun depth bound before rest hb hl => ⟨space, hs, ?_⟩
  have closing : Stops 0 (')' :: (space ++ rest)) := stops_closing (by decide)
  have inside : (chars ++ ')' :: (space ++ rest)).length < depth := by
    simp only [Fits, List.length_append, List.length_cons] at hl ⊢
    omega
  have run := h.inside hg inside closing
  rw [List.cons_append, List.append_assoc, List.append_assoc, List.cons_append]
  refine (takes_skipBlank hb (isSolid_cons rfl)).bind (.rest
    (.goto (run.bind ((takes_skipBlank_here closing.solid).bind ?_))))
  exact (takes_expect ")").bind .pure

theorem at_tokensAt (hp : Printable e) (h : Rereads extra e) (hL : L ≤ 9) (hw : Written (tokensAt extra L e) chars) :
    At L chars e := by
  have own {L : Nat} {chars : List Char} (hw : Written (tokens extra e) chars) (hl : L ≤ e.level) : At L chars e :=
    (h chars hw).below e.level_le (starts_of_led (led_tokens hp) (plain_tokens hp) hw) hl
  rw [tokensAt, enclosed] at hw
  split at hw
  · have opens : ∀ rest, Starts 9 (chars ++ rest) := by
      have leads : Token.Leads 9 (.mark "(") := Or.inl (by decide)
      refine starts_of_led (led_cons leads) ?_ hw
      exact plain_mark (by decide) ((plain_tokens hp).append (plain_mark (by decide) plain_nil))
    obtain ⟨gap, _, -, hg, hm, rfl⟩ := written_mark_cons hw
    obtain ⟨inside, close, rfl, hi, hc⟩ := written_append.1 hm
    obtain ⟨c, space, hs, rfl⟩ := written_symbol hc
    exact (at_parenthesized (own hi (Nat.zero_le _)) hg hs).below le_rfl opens hL
  · rename_i n
    simp only [Bool.or_eq_true, decide_eq_true_eq, not_or, Nat.not_lt] at n
    exact own hw n.1

/-- A printed expression stands as an item of a list. -/
theorem itemAt_expression (hp : Printable e) (h : Rereads extra e) (hw : Written (tokensAt extra 0 e) chars)
    (bound : Nat) : ItemAt bound (expression bound) chars e := fun rest =>
  ⟨starts_of_led (led_tokensAt hp 0) (plain_tokensAt hp 0) hw rest, fun hl hs =>
    (at_tokensAt hp h (by decide) hw).inside isBlank_nil hl hs⟩

theorem itemAt_argument (hp : Printable e) (h : Rereads extra e) (hw : Written (tokensAt extra 0 e) chars)
    (bound : Nat) : ItemAt bound (do skipArgumentName; expression bound) chars e := fun rest =>
  ⟨(itemAt_expression hp h hw bound rest).1, fun hl hs =>
    (takes_skipArgumentName (led_tokensAt hp 0) (plain_tokensAt hp 0) hw hs).bind
      ((itemAt_expression hp h hw bound rest).2 hl hs)⟩

theorem itemAt_entry {key value : Expr} (hk : Printable key) (hv : Printable value) (ik : Rereads extra key)
    (iv : Rereads extra value)
    (hw : Written (tokensAt extra 0 key ++ .mark ":" :: tokensAt extra 0 value) chars) (bound : Nat) :
    ItemAt bound (dictEntry (expression bound)) chars (key, value) := by
  obtain ⟨first, behind, rfl, hf, hb⟩ := written_append.1 hw
  obtain ⟨gap, second, -, hg, hs, rfl⟩ := written_mark_cons hb
  intro rest
  rw [List.append_assoc, List.append_assoc, List.append_assoc]
  have colon : Stops 0 (":".toList ++ (gap ++ (second ++ rest))) := stops_closing (by decide)
  have item := itemAt_expression hk ik hf bound (":".toList ++ (gap ++ (second ++ rest)))
  refine ⟨item.1, fun hl stops => ?_⟩
  have shorter : (second ++ rest).length < bound := by
    simp only [List.length_append] at hl ⊢
    omega
  have run := (at_tokensAt hv iv (by decide) hs).inside hg shorter stops
  exact (item.2 hl colon).bind ((takes_skipBlank_here colon.solid).bind ((takes_expect ":").bind (run.bind .pure)))

/-- In front of a word no symbol is found. -/
theorem takes_postfixStep_is {space : List Char} {target : Expr} {found : Expr} {bound : Nat} {inner : Parser Expr}
    (hg : IsBlank gap) (hne : space ≠ []) (hs : IsBlank space)
    (ht : Takes (test inner bound target) (space ++ text) found after) :
    Takes (postfixStep inner bound target) (gap ++ ("is".toList ++ (space ++ text))) (some found) after := by
  have word : isIdentifier "is" := by decide
  have symbol (c : Char) (hc : isIdentStart c = false) : ("is".toList ++ (space ++ text)).head? ≠ some c :=
    head?_ne_of_isIdentifier word hc
  refine (takes_skipBlank hg (isSolid_of_isIdentifier word)).bind ?_
  refine .no (takes_consume_ne rfl (symbol '.' rfl)) (.no (takes_consume_ne rfl (symbol '[' rfl)) ?_)
  refine .no (takes_peek_ne rfl (symbol '(' rfl)) (.no (takes_consume_ne rfl (symbol '|' rfl)) ?_)
  exact .yes (takes_consumeWord_here word (endsWord_of_isBlank hs hne)) (ht.bind .pure)

theorem takes_peek_bracketed {items : List (List Token)} (hw : Written (bracketed "(" items ")") chars)
    (rest : List Char) : Takes (peek "(") (chars ++ rest) true (chars ++ rest) := by
  obtain ⟨gap, more, -, -, -, rfl⟩ := written_mark_cons hw
  exact ⟨fun _ => ⟨_, rfl⟩⟩

section Arguments

variable {args : List Expr} (hp : ∀ e ∈ args, Printable e) (h : ∀ e ∈ args, Rereads extra e)
include hp h

theorem takes_callArguments (hw : Written (bracketed "(" (tokensOfAll extra args) ")") chars) {depth bound : Nat}
    (hb : Fits depth bound (chars ++ text)) : ∃ space, IsBlank space ∧
      Takes (callArguments (expression depth) bound) (chars ++ text) args (space ++ text) := by
  rw [tokensOfAll_eq] at hw
  have items : ∀ e ∈ args, ∀ chars, Written (tokensAt extra 0 e) chars →
      ItemAt depth (do skipArgumentName; expression depth) chars e :=
    fun e m _ hw => itemAt_argument (hp e m) (h e m) hw depth
  obtain ⟨inside, space, hs, whole, run⟩ := takes_bracketed (by decide) rfl (by decide) items hw hb
  rw [whole]
  exact ⟨space, hs, (takes_expect "(").bind run⟩

/-- Arguments that may be left out are not. -/
theorem takes_optionalArguments (hw : Written (bracketed "(" (tokensOfAll extra args) ")") chars) {depth bound : Nat}
    (hg : IsBlank gap) (hb : Fits depth bound (chars ++ text)) : ∃ space, IsBlank space ∧
      Takes (optionalArguments (expression depth) bound) (gap ++ (chars ++ text)) args (space ++ text) := by
  obtain ⟨space, hs, run⟩ := takes_callArguments hp h hw hb
  have stops : Stops 10 (chars ++ text) := stops_of_written hw (by decide : "(" ∈ symbols) (by simp) (by decide) text
  exact ⟨space, hs, (takes_skipBlank hg stops.solid).bind (.yes (takes_peek_bracketed hw text) run)⟩

theorem rereads_call {callee : Expr} (hc : Printable callee) (hf : Rereads extra callee) :
    Rereads extra (.call callee args) := by
  intro chars hw
  rw [tokens] at hw
  obtain ⟨first, arguments, rfl, hw, ha⟩ := written_append.1 hw
  have start : At 9 first callee := at_tokensAt hc hf le_rfl hw
  have opening (rest : List Char) : Stops 10 (arguments ++ rest) :=
    stops_of_written ha (by decide : "(" ∈ symbols) (by simp) (by decide) rest
  show At 9 (first ++ arguments) (.call callee args)
  refine (start.reaches (by decide)).extend (by decide) (ne_nil_of_written ha) opening ?_
  intro depth bound gap rest hg hb _
  obtain ⟨space, hs, run⟩ := takes_callArguments hp h ha hb
  have head : (arguments ++ rest).head? = some '(' := by
    obtain ⟨gap, more, -, -, -, rfl⟩ := written_mark_cons ha
    rfl
  refine ⟨space, hs, (takes_skipBlank hg (opening rest).solid).bind ?_⟩
  refine .no (takes_consume_ne rfl ?_) (.no (takes_consume_ne rfl ?_)
    (.yes (takes_peek_bracketed ha rest) (run.bind .pure)))
  · rw [head]; decide
  · rw [head]; decide

theorem rereads_filter {name : String} {target : Expr} (hn : isIdentifier name) (ht : Printable target)
    (hf : Rereads extra target) : Rereads extra (.filter name target args) := by
  intro chars hw
  rw [tokens] at hw
  obtain ⟨first, filter, rfl, hw, hb⟩ := written_append.1 hw
  have start : At 9 first target := at_tokensAt ht hf le_rfl hw
  have opening (rest : List Char) : Stops 10 (filter ++ rest) :=
    stops_of_written hb (by decide : "|" ∈ symbols) (by simp) (by decide) rest
  show At 9 (first ++ filter) (.filter name target args)
  refine (start.reaches (by decide)).extend (by decide) (ne_nil_of_written hb) opening ?_
  intro depth bound gap rest hg hl _
  have solid := (opening rest).solid
  obtain ⟨before, _, -, hbefore, hn', rfl⟩ := written_mark_cons hb
  obtain ⟨behind, arguments, hne, hbehind, ha, rfl⟩ := written_word_cons hn'
  simp only [List.append_assoc] at hl solid ⊢
  have shorter : Fits depth bound (arguments ++ rest) := by
    simp only [Fits, List.length_append] at hl ⊢
    omega
  obtain ⟨space, hs, run⟩ := takes_optionalArguments hp h ha hbehind shorter
  have ends : EndsWord (behind ++ (arguments ++ rest)) := endsWord_of_isBlank hbehind hne
  have word := takes_identifier hn hbefore ends
  refine ⟨space, hs, (takes_skipBlank hg solid).bind ?_⟩
  refine .no (takes_consume_ne rfl (head?_cons_ne (by decide))) ?_
  refine .no (takes_consume_ne rfl (head?_cons_ne (by decide))) ?_
  refine .no (takes_peek_ne rfl (head?_cons_ne (by decide))) ?_
  exact .yes (takes_consume "|") (word.bind (run.bind .pure))

theorem rereads_test {name : String} {target : Expr} (negated : Bool) (hn : isIdentifier name)
    (hname : name ∉ ["defined", "undefined", "not"]) (ht : Printable target) (hf : Rereads extra target) :
    Rereads extra (.test name target args negated) := by
  intro chars hw
  rw [tokens] at hw
  obtain ⟨first, behind, rfl, hw, hb⟩ := written_append.1 hw
  have start : At 9 first target := at_tokensAt ht hf le_rfl hw
  have opening (rest : List Char) : Stops 10 (behind ++ rest) :=
    stops_of_written hb (by decide : isIdentifier "is") (by simp) (by decide) rest
  show At 9 (first ++ behind) (.test name target args negated)
  refine (start.reaches (by decide)).extend (by decide) (ne_nil_of_written hb) opening ?_
  intro depth bound gap rest hg hl _
  obtain ⟨space, _, hne, hs, htest, rfl⟩ := written_word_cons hb
  obtain ⟨negation, _, rfl, hneg, hcall⟩ := written_append.1 htest
  obtain ⟨before, arguments, hne', hbefore, ha, rfl⟩ := written_word_cons hcall
  simp only [List.append_assoc] at hl ⊢
  have shorter : Fits depth bound (arguments ++ rest) := by
    simp only [Fits, List.length_append] at hl ⊢
    omega
  obtain ⟨close, hclose, run⟩ := takes_optionalArguments hp h ha hbefore shorter
  refine ⟨close, hclose, takes_postfixStep_is hg hne hs ?_⟩
  have ends : EndsWord (before ++ (arguments ++ rest)) := endsWord_of_isBlank hbefore hne'
  simp only [List.mem_cons, List.not_mem_nil, or_false, not_or] at hname
  have denied : ∃ gap, IsBlank gap ∧ Takes (consumeWord "not")
      (space ++ (negation ++ (name.toList ++ (before ++ (arguments ++ rest))))) negated
      (gap ++ (name.toList ++ (before ++ (arguments ++ rest)))) := by
    cases negated with
    | false =>
      cases hneg
      refine ⟨[], isBlank_nil, takes_consumeWord_ne hs (isSolid_of_isIdentifier hn) ?_⟩
      exact startsWithWord_of_ne (by decide) hn hname.2.2 ends
    | true =>
      obtain ⟨gap, hgap, hgne, rfl⟩ := written_keyword hneg
      rw [List.append_assoc]
      exact ⟨gap, hgap, takes_consumeWord (by decide) hs (endsWord_of_isBlank hgap hgne)⟩
  obtain ⟨gap, hgap, word⟩ := denied
  refine word.bind ((takes_identifier hn hgap ends).bind ?_)
  rw [if_neg hname.1, if_neg hname.2.1]
  exact run.bind .pure

end Arguments

theorem rereads_isDefined {target : Expr} (ht : Printable target) (hf : Rereads extra target) :
    Rereads extra (.isDefined target) := by
  intro chars hw
  rw [tokens] at hw
  obtain ⟨first, behind, rfl, hw, hb⟩ := written_append.1 hw
  have start : At 9 first target := at_tokensAt ht hf le_rfl hw
  have opening (rest : List Char) : Stops 10 (behind ++ rest) :=
    stops_of_written hb (by decide : isIdentifier "is") (by simp) (by decide) rest
  show At 9 (first ++ behind) (.isDefined target)
  refine (start.reaches (by decide)).extend (by decide) (ne_nil_of_written hb) opening ?_
  intro depth bound gap rest hg hl _
  obtain ⟨space, _, hne, hs, hword, rfl⟩ := written_word_cons hb
  obtain ⟨close, hclose, hne', rfl⟩ := written_keyword hword
  simp only [List.append_assoc]
  refine ⟨close, hclose, takes_postfixStep_is hg hne hs ?_⟩
  have ends : EndsWord (close ++ rest) := endsWord_of_isBlank hclose hne'
  have word : isIdentifier "defined" := by decide
  have other : Takes (consumeWord "not") (space ++ ("defined".toList ++ (close ++ rest))) false
      ("defined".toList ++ (close ++ rest)) :=
    takes_consumeWord_ne hs (isSolid_of_isIdentifier word) (startsWithWord_of_ne (by decide) word (by decide) ends)
  exact other.bind ((takes_identifier_here word ends).bind .pure)

theorem rereads_lookup {base key : Expr} (hb : Printable base) (hk : Printable key) (ib : Rereads extra base)
    (ik : Rereads extra key) : Rereads extra (.lookup base key) := by
  intro chars hw
  rw [tokens] at hw
  obtain ⟨first, behind, rfl, hw, hl⟩ := written_append.1 hw
  have start : At 9 first base := at_tokensAt hb ib le_rfl hw
  have opening (rest : List Char) : Stops 10 (behind ++ rest) :=
    stops_of_written hl (by decide : "[" ∈ symbols) (by simp) (by decide) rest
  show At 9 (first ++ behind) (.lookup base key)
  refine (start.reaches (by decide)).extend (by decide) (ne_nil_of_written hl) opening ?_
  intro depth bound gap rest hg hlen _
  have solid := (opening rest).solid
  obtain ⟨space, _, -, hs, hin, rfl⟩ := written_mark_cons hl
  obtain ⟨inside, close, rfl, hi, hc⟩ := written_append.1 hin
  obtain ⟨c, end_, hend, rfl⟩ := written_symbol hc
  simp only [List.append_assoc] at hlen solid ⊢
  have closing : Stops 0 ("]".toList ++ (c :: end_ ++ rest)) := stops_closing (by decide)
  have shorter : (inside ++ ("]".toList ++ (c :: end_ ++ rest))).length < depth := by
    have : "[".toList.length = 1 := rfl
    simp only [Fits, List.length_append] at hlen ⊢
    omega
  have run := (at_tokensAt hk ik (by decide) hi).inside hs shorter closing
  refine ⟨c :: end_, hend, (takes_skipBlank hg solid).bind (.no (takes_consume_ne rfl (head?_cons_ne (by decide))) ?_)⟩
  exact .yes (takes_consume "[") (run.bind ((takes_skipBlank_here closing.solid).bind ((takes_expect "]").bind .pure)))

/-! ### Operators -/

theorem At.of_reads (hL : L ∉ loopLevels) (h : Reads L chars e) : At L chars e :=
  ⟨h, fun m => absurd m hL⟩

/-- An operator between an expression of its own level and one of the next. -/
theorem at_of_step (hL : L ∈ infixLevels) {left right longer : Expr} {operator : List Token}
    {first middle last : List Char}
    (hl : At L first left) (hr : At (L + 1) last right) (hw : Written operator middle)
    (ho : ∃ token more, operator = token :: more ∧ token.IsPlain ∧ token.level? = some L)
    (hs : ∀ inner bound gap text after, IsBlank gap →
      (∀ space, IsBlank space → Takes (level inner bound bound (L + 1)) (space ++ text) right after) →
      Takes (step inner bound L left) (gap ++ (middle ++ text)) (some longer) after) :
    At L (first ++ (middle ++ last)) longer := by
  obtain ⟨token, more, rfl, plain, own⟩ := ho
  have loop : L ∈ loopLevels := List.mem_append_left _ hL
  have operand : middle ++ last ≠ [] := List.append_ne_nil_of_left_ne_nil (ne_nil_of_written hw) last
  have stops (rest : List Char) : Stops (L + 1) (middle ++ last ++ rest) := by
    rw [List.append_assoc]
    refine stops_of_written hw plain ?_ ?_ _
    · rintro value rfl
      cases own
    · rw [own]
      rintro k ⟨⟩
      exact Nat.lt_succ_self L
  refine (hl.reaches loop).extend loop operand stops fun depth bound gap rest hg hb stop => ⟨[], isBlank_nil, ?_⟩
  rw [List.append_assoc] at hb ⊢
  have enough : Fits depth bound (last ++ rest) := by
    simp only [Fits, List.length_append] at hb ⊢
    omega
  exact hs _ _ gap _ _ hg fun space hspace => hr.reads hspace enough enough.2 stop

section Binary

variable {left right : Expr} (hl : Printable left) (hr : Printable right) (il : Rereads extra left)
  (ir : Rereads extra right)
include hl hr il ir

/-- What `at_of_step` asks for is all that tells one operator from another. -/
theorem rereads_of_step (L : Nat) (operator : List Token) (hL : L ∈ infixLevels) {longer : Expr}
    (ht : tokens extra longer = tokensAt extra L left ++ (operator ++ tokensAt extra (L + 1) right))
    (hlevel : longer.level = L)
    (ho : ∃ token more, operator = token :: more ∧ token.IsPlain ∧ token.level? = some L)
    (hs : ∀ middle, Written operator middle → ∀ inner bound gap text after, IsBlank gap →
      (∀ space, IsBlank space → Takes (level inner bound bound (L + 1)) (space ++ text) right after) →
      Takes (step inner bound L left) (gap ++ (middle ++ text)) (some longer) after) : Rereads extra longer := by
  intro chars hw
  have small : ∀ L ∈ infixLevels, L ≤ 9 ∧ L + 1 ≤ 9 := by decide
  rw [ht] at hw
  obtain ⟨first, behind, rfl, hf, hb⟩ := written_append.1 hw
  obtain ⟨middle, last, rfl, hm, hlast⟩ := written_append.1 hb
  rw [hlevel]
  exact at_of_step hL (at_tokensAt hl il (small L hL).1 hf) (at_tokensAt hr ir (small L hL).2 hlast) hm ho
    (hs middle hm)

theorem rereads_or : Rereads extra (.or left right) :=
  rereads_of_step hl hr il ir 1 [.word "or"] (by decide) (by rw [tokens]; rfl) rfl
    ⟨_, _, rfl, by decide, rfl⟩ fun _ hm _ _ _ _ _ hg ho => takes_disjunctionStep hg hm ho

theorem rereads_and : Rereads extra (.and left right) :=
  rereads_of_step hl hr il ir 2 [.word "and"] (by decide) (by rw [tokens]; rfl) rfl
    ⟨_, _, rfl, by decide, rfl⟩ fun _ hm _ _ _ _ _ hg ho => takes_conjunctionStep hg hm ho

theorem rereads_compare (op : Comparison) : Rereads extra (.compare op left right) := by
  refine rereads_of_step hl hr il ir 4 (comparisonTokens op) (by decide) (by rw [tokens]; rfl) rfl ?_
    fun _ hm _ _ _ _ _ hg ho => takes_comparisonStep hg hm ho
  cases op <;> exact ⟨_, _, rfl, by decide, rfl⟩

theorem rereads_binary (op : Operator) : Rereads extra (.binary op left right) := by
  have own : ∃ token more, [Token.mark op.symbol] = token :: more ∧ token.IsPlain ∧ token.level? = some op.level := by
    cases op <;> exact ⟨_, _, rfl, by decide, rfl⟩
  refine rereads_of_step hl hr il ir op.level [.mark op.symbol] ?_ (by rw [tokens]; rfl) rfl own ?_
  · cases op <;> decide
  · intro middle hm inner bound gap text after hg ho
    cases op with
    | concat => exact takes_joinStep hg hm ho
    | add | sub => exact takes_sumStep hg rfl hm ho
    | mul | div | floorDiv | rem | pow => exact takes_productStep hg rfl hm ho

end Binary

theorem rereads_not {inner : Expr} (hp : Printable inner) (h : Rereads extra inner) : Rereads extra (.not inner) := by
  intro chars hw
  rw [tokens] at hw
  obtain ⟨space, operand, hne, hs, ho, rfl⟩ := written_word_cons hw
  show At 3 _ _
  refine .of_reads (by decide) fun depth bound rounds gap rest hg hb hr stops => ?_
  obtain ⟨rounds, rfl⟩ := Nat.exists_eq_succ_of_ne_zero (by omega : rounds ≠ 0)
  simp only [List.append_assoc] at hb hr ⊢
  have shorter : Fits depth bound (operand ++ rest) ∧ (operand ++ rest).length < rounds := by
    have : "not".toList.length = 3 := rfl
    simp only [Fits, List.length_append] at hb hr ⊢
    omega
  have run := (at_tokensAt hp h (by decide) ho).reads hs shorter.1 shorter.2 stops
  exact .yes (takes_consumeWord (by decide) hg (endsWord_of_isBlank hs hne)) (run.bind .pure)

theorem rereads_neg {inner : Expr} (hp : Printable inner) (h : Rereads extra inner) : Rereads extra (.neg inner) := by
  intro chars hw
  rw [tokens] at hw
  obtain ⟨space, operand, -, hs, ho, rfl⟩ := written_mark_cons hw
  show At 8 _ _
  refine .of_reads (by decide) fun depth bound rounds gap rest hg hb hr stops => ?_
  obtain ⟨rounds, rfl⟩ := Nat.exists_eq_succ_of_ne_zero (by omega : rounds ≠ 0)
  simp only [List.append_assoc] at hb hr ⊢
  have shorter : Fits depth bound (operand ++ rest) ∧ (operand ++ rest).length < rounds := by
    have : "-".toList.length = 1 := rfl
    simp only [Fits, List.length_append] at hb hr ⊢
    omega
  have run := (at_tokensAt hp h (by decide) ho).reads hs shorter.1 shorter.2 stops
  exact (takes_skipBlank hg (isSolid_cons rfl)).bind (.yes (takes_consume "-") (run.bind .pure))

/-- The condition and what stands behind `else`, if that is there. -/
theorem takes_otherwise {condition value : Expr} {otherwise : Option Expr} (hp : ∀ e ∈ otherwise, Printable e)
    (h : ∀ e ∈ otherwise, Rereads extra e) {second : List Char} (hc : At 1 second condition)
    (hw : Written (tokensOfOtherwise extra otherwise) chars) {depth bound : Nat} (hg : IsBlank gap)
    (hb : Fits depth bound (second ++ (chars ++ text))) (hs : Stops 0 text) :
    Takes (do
      let condition ← disjunction (expression depth) bound
      if ← consumeWord "else" then return .inlineIf value condition (some (← expression depth))
      else return .inlineIf value condition none) (gap ++ (second ++ (chars ++ text)))
      (Expr.inlineIf value condition otherwise) text := by
  cases otherwise with
  | none =>
    cases hw
    have run := hc.reads hg hb hb.2 (hs.mono (by decide))
    have word := hs.word le_rfl (by decide : isIdentifier "else") rfl
    exact run.bind (.no (takes_consumeWord_ne_here hs.solid word) .pure)
  | some e =>
    rw [tokensOfOtherwise] at hw
    have behind : Stops 1 (chars ++ text) := stops_of_written hw (by decide : isIdentifier "else") (by simp)
      (by decide) text
    have run := hc.reads hg hb hb.2 behind
    obtain ⟨space, last, hne, hspace, hl, rfl⟩ := written_word_cons hw
    simp only [List.append_assoc] at hb run ⊢
    have shorter : (last ++ text).length < depth := by
      have : "else".toList.length = 4 := rfl
      simp only [Fits, List.length_append] at hb ⊢
      omega
    have inside := (at_tokensAt (hp e rfl) (h e rfl) (by decide) hl).inside hspace shorter hs
    refine run.bind (.yes (takes_consumeWord_here (by decide) (endsWord_of_isBlank hspace hne)) ?_)
    exact inside.bind .pure

theorem rereads_inlineIf {value condition : Expr} {otherwise : Option Expr} (hv : Printable value)
    (hc : Printable condition)
    (hp : ∀ e ∈ otherwise, Printable e) (iv : Rereads extra value) (ic : Rereads extra condition)
    (h : ∀ e ∈ otherwise, Rereads extra e) : Rereads extra (.inlineIf value condition otherwise) := by
  intro chars hw
  rw [tokens] at hw
  obtain ⟨first, _, rfl, hf, hif⟩ := written_append.1 hw
  have opening (rest : List Char) := stops_of_written hif (by decide : isIdentifier "if") (by simp)
    (by decide : ∀ k ∈ (Token.word "if").level?, k < 1) rest
  obtain ⟨space, _, hne, hs, hrest, rfl⟩ := written_word_cons hif
  obtain ⟨second, last, rfl, hsecond, hlast⟩ := written_append.1 hrest
  show At 0 _ _
  refine .of_reads (by decide) fun depth bound rounds gap rest hg hb _ stops => ?_
  have behind := opening rest
  simp only [List.append_assoc] at hb behind ⊢
  have run := (at_tokensAt hv iv (by decide) hf).reads hg hb hb.2 behind
  have enough : Fits depth bound (second ++ (last ++ rest)) := by
    simp only [Fits, List.length_append] at hb ⊢
    omega
  refine run.bind (.yes (takes_consumeWord_here (by decide) (endsWord_of_isBlank hs hne)) ?_)
  exact takes_otherwise hp h (at_tokensAt hc ic (by decide) hsecond) hlast hs enough stops

/-! ### Operands -/

theorem rereads_literal {value : Value} (h : ∀ i, value = .int i → 0 ≤ i.toInt) : Rereads extra (.literal value) := by
  intro chars hw
  rw [tokens] at hw
  obtain ⟨word, space, _, rfl, ht, hne, hs, hn⟩ := written_cons.1 hw
  cases hn
  obtain ⟨c, space, rfl⟩ := List.exists_cons_of_ne_nil hne
  refine at_of_primary fun depth bound gap rest hg _ => ⟨c :: space, hs, ?_⟩
  rw [List.append_nil, List.append_assoc]
  cases ht with
  | int i => exact takes_primary_int hg (h i rfl) (hs c List.mem_cons_self)
  | @string quote s content hq he =>
    have run : Takes (primary (expression depth) bound) (gap ++ (quote :: (content ++ quote :: (c :: space ++ rest))))
        (.literal (.string s)) (c :: space ++ rest) := takes_primary_string hg hq he
    simpa using run
  | constant hm =>
    obtain ⟨hw, -, hv⟩ := constantWords_spec hm
    rw [← hv]
    exact takes_primary_word hg hw (endsWord_of_isBlank hs hne)

theorem nameOrConstant_of_notMem_reserved {name : String} (h : name ∉ reserved) : nameOrConstant name = .var name := by
  simp only [reserved, List.mem_cons, List.not_mem_nil, or_false, not_or] at h
  unfold nameOrConstant
  split <;> simp_all

theorem rereads_var {name : String} (hn : isIdentifier name) (hr : name ∉ reserved) : Rereads extra (.var name) := by
  intro chars hw
  rw [tokens] at hw
  obtain ⟨space, hs, hne, rfl⟩ := written_keyword hw
  refine at_of_primary fun depth bound gap rest hg _ => ⟨space, hs, ?_⟩
  rw [List.append_assoc, ← nameOrConstant_of_notMem_reserved hr]
  exact takes_primary_word hg hn (endsWord_of_isBlank hs hne)

theorem rereads_list {items : List Expr} (hp : ∀ e ∈ items, Printable e) (h : ∀ e ∈ items, Rereads extra e) :
    Rereads extra (.list items) := by
  intro chars hw
  rw [tokens, tokensOfAll_eq] at hw
  refine at_of_primary fun depth bound gap rest hg hb => ?_
  have item : ∀ e ∈ items, ∀ chars, Written (tokensAt extra 0 e) chars → ItemAt depth (expression depth) chars e :=
    fun e m _ hw => itemAt_expression (hp e m) (h e m) hw depth
  obtain ⟨inside, space, hs, whole, run⟩ := takes_bracketed (by decide) rfl (by decide) item hw hb
  rw [whole]
  exact ⟨space, hs, (takes_skipBlank hg (isSolid_cons rfl)).bind (.rest (.goto (run.bind .pure)))⟩

theorem rereads_dict {entries : List (Expr × Expr)} (hk : ∀ entry ∈ entries, Printable entry.1)
    (hv : ∀ entry ∈ entries, Printable entry.2) (ik : ∀ entry ∈ entries, Rereads extra entry.1)
    (iv : ∀ entry ∈ entries, Rereads extra entry.2) : Rereads extra (.dict entries) := by
  intro chars hw
  rw [tokens, tokensOfEntries_eq] at hw
  refine at_of_primary fun depth bound gap rest hg hb => ?_
  have item : ∀ entry ∈ entries, ∀ chars,
      Written (tokensAt extra 0 entry.1 ++ .mark ":" :: tokensAt extra 0 entry.2) chars →
      ItemAt depth (dictEntry (expression depth)) chars entry :=
    fun entry m _ hw => itemAt_entry (hk entry m) (hv entry m) (ik entry m) (iv entry m) hw depth
  obtain ⟨inside, space, hs, whole, run⟩ := takes_bracketed (by decide) rfl (by decide) item hw hb
  rw [whole]
  exact ⟨space, hs, (takes_skipBlank hg (isSolid_cons rfl)).bind (.rest (.goto (run.bind .pure)))⟩

/-- Every expression that has a text is read from it. -/
theorem rereads (h : Printable e) : Rereads extra e := by
  induction h with
  | int hi => exact rereads_literal fun i e => by cases e; exact hi
  | string | bool | null => exact rereads_literal nofun
  | var hn hr => exact rereads_var hn hr
  | lookup hb hk ib ik => exact rereads_lookup hb hk ib ik
  | and hl hr il ir => exact rereads_and hl hr il ir
  | or hl hr il ir => exact rereads_or hl hr il ir
  | not hp ih => exact rereads_not hp ih
  | isDefined hp ih => exact rereads_isDefined hp ih
  | filter hn ht ha it ia => exact rereads_filter ha ia hn ht it
  | compare op hl hr il ir => exact rereads_compare hl hr il ir op
  | binary op hl hr il ir => exact rereads_binary hl hr il ir op
  | neg hp ih => exact rereads_neg hp ih
  | call hc ha ic ia => exact rereads_call ha ia hc ic
  | test negated hn hname ht ha it ia => exact rereads_test ha ia negated hn hname ht it
  | list hp ih => exact rereads_list hp ih
  | dict hk hv ik iv => exact rereads_dict hk hv ik iv
  | inlineIf hv hc hp iv ic ih => exact rereads_inlineIf hv hc hp iv ic ih

/-- A printed expression in a place of any level, whatever stops it. -/
theorem takes_tokensAt (hp : Printable e) (hL : L ≤ 9) (hw : Written (tokensAt extra L e) chars) : At L chars e :=
  at_tokensAt hp (rereads hp) hL hw

end Expressions

end Folio.Template.Parser
