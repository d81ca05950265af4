import Folio.Proofs.Template.Levels

/-! What opens and closes operands: words, numbers, strings, and lists in brackets. Each is read from any text that its
tokens have. -/
namespace Folio.Template.Parser

variable {text after gap : List Char}

/-! ### Operands without an operator -/

section Primary

variable {inner : Parser Expr} {bound : Nat} {e : Expr}

theorem takes_primary {c : Char} (hg : IsBlank gap) (hb : Text.isBlank c = false) (hc : c ∉ ['(', '[', '{'])
    (h : Takes (if c = '"' || c = '\'' then do return .literal (.string (← stringLiteral c))
      else if c.isDigit then do return .literal (← number)
      else if isIdentStart c then do return nameOrConstant (← identifier)
      else fail (.expected ("expression, found '" ++ String.ofList (snippet 10 (c :: text)) ++ "'")))
      (c :: text) e after) :
    Takes (primary inner bound) (gap ++ (c :: text)) e after := by
  simp only [List.mem_cons, List.not_mem_nil, or_false, not_or] at hc
  refine (takes_skipBlank hg (isSolid_cons hb)).bind (.rest ?_)
  split
  · rename_i e
    cases e
  · rename_i e
    cases e
    exact absurd rfl hc.1
  · rename_i e
    cases e
    exact absurd rfl hc.2.1
  · rename_i e
    cases e
    exact absurd rfl hc.2.2
  · rename_i e
    cases e
    exact h

theorem takes_primary_word {word : String} (hg : IsBlank gap) (hw : isIdentifier word) (ha : EndsWord after) :
    Takes (primary inner bound) (gap ++ (word.toList ++ after)) (nameOrConstant word) after := by
  have run := takes_identifier_here hw ha
  obtain ⟨c, letters, e, hc, -⟩ := isIdentStart_of_isIdentifier hw
  have apart {d : Char} (hd : isIdentStart d = false) : c ≠ d := by
    rintro rfl
    rw [hc] at hd
    cases hd
  have digit : ¬ c.isDigit = true := fun h => by
    rw [isIdentStart_of_isDigit h] at hc
    cases hc
  have quote : ¬ (decide (c = '"') || decide (c = '\'')) = true := by
    simpa using And.intro (apart rfl : c ≠ '"') (apart rfl : c ≠ '\'')
  rw [e] at run ⊢
  have bracket : c ∉ ['(', '[', '{'] := by
    simpa using And.intro (apart rfl : c ≠ '(') (And.intro (apart rfl : c ≠ '[') (apart rfl : c ≠ '{'))
  refine takes_primary hg (isBlank_of_isIdentRest (isIdentRest_of_isIdentStart hc)) bracket ?_
  rw [if_neg quote, if_neg digit, if_pos hc]
  exact run.bind .pure

/-- A number in front of the text ends there: neither a digit follows, nor a point with a digit behind it. -/
structure EndsNumber (text : List Char) : Prop where
  digit : ∀ c ∈ text.head?, c.isDigit = false
  point : ∀ d more, text = '.' :: d :: more → d.isDigit = false

theorem endsNumber_of_isBlank {c : Char} (hc : Text.isBlank c = true) : EndsNumber (c :: text) := by
  refine ⟨?_, fun d more e => ?_⟩
  · rintro d ⟨⟩
    rw [Bool.eq_false_iff]
    intro h
    have := isBlank_of_isIdentRest (c := c) (by simp [isIdentRest, Char.isAlphanum, h])
    rw [hc] at this
    cases this
  · cases e
    exact absurd hc (by decide)

theorem span_isDigit {digits : List Char} (hd : ∀ d ∈ digits, d.isDigit = true)
    (ends : ∀ c ∈ text.head?, c.isDigit = false) : (digits ++ text).takeWhile Char.isDigit = digits ∧
      (digits ++ text).dropWhile Char.isDigit = text := by
  rw [List.takeWhile_append_of_pos hd, List.dropWhile_append_of_pos hd]
  cases text with
  | nil => simp
  | cons c text => simp [ends c rfl]

theorem takes_number {digits : List Char} {n : Nat} (hd : ∀ d ∈ digits, d.isDigit = true)
    (hv : Decimal.natOfDigits digits = n) (hn : n < 0x8000000000000000) (ends : EndsNumber text) :
    Takes number (digits ++ text) (.int (Int64.ofNat n)) text := by
  obtain ⟨whole, behind⟩ := span_isDigit hd ends.digit
  have integer : Takes (number.integer digits text) (digits ++ text) (.int (Int64.ofNat n)) text := by
    refine .goto ?_
    dsimp only
    rw [hv, if_pos hn]
    exact .pure
  refine .rest ?_
  rw [whole, behind]
  split
  · rename_i d after
    rw [if_neg (Bool.eq_false_iff.1 (ends.point d after rfl))]
    exact integer
  · exact integer

theorem takes_number_fraction {whole fraction : List Char} (hw : ∀ d ∈ whole, d.isDigit = true)
    (hf : ∀ d ∈ fraction, d.isDigit = true) (hne : fraction ≠ []) (ends : ∀ c ∈ text.head?, c.isDigit = false) :
    Takes number (whole ++ '.' :: (fraction ++ text)) (.float (Decimal.floatOfDigits whole fraction)) text := by
  have point : ∀ c ∈ ('.' :: (fraction ++ text)).head?, c.isDigit = false := by
    rintro c ⟨⟩
    rfl
  obtain ⟨before, behind⟩ := span_isDigit hw point
  obtain ⟨digits, rest⟩ := span_isDigit hf ends
  obtain ⟨d, fraction, rfl⟩ := List.exists_cons_of_ne_nil hne
  rw [List.cons_append] at before behind digits rest ⊢
  refine .rest ?_
  rw [before, behind]
  split
  · rename_i e
    cases e
    rw [if_pos (hf d List.mem_cons_self), digits, rest]
    exact .goto .pure
  · rename_i other
    exact absurd rfl (other d (fraction ++ text))

theorem takes_primary_int {i : Int64} (hg : IsBlank gap) (hi : 0 ≤ i.toInt) {c : Char} (hc : Text.isBlank c = true) :
    Takes (primary inner bound) (gap ++ (Nat.toDigits 10 i.toInt.toNat ++ c :: text)) (.literal (.int i))
    (c :: text) := by
  have digits : ∀ d ∈ Nat.toDigits 10 i.toInt.toNat, d.isDigit = true := fun d hd =>
    Nat.isDigit_of_mem_toDigits (by decide) (by decide) hd
  have value : Value.int (Int64.ofNat i.toInt.toNat) = .int i := by
    rw [← Int64.ofInt_eq_ofNat, Int.toNat_of_nonneg hi, Int64.ofInt_toInt]
  have run : Takes number (Nat.toDigits 10 i.toInt.toNat ++ c :: text) (.int i) (c :: text) := by
    have := i.toInt_lt
    rw [← value]
    exact takes_number digits (Decimal.natOfDigits_toDigits _) (by omega) (endsNumber_of_isBlank hc)
  obtain ⟨d, more, e⟩ := List.exists_cons_of_ne_nil (Nat.toDigits_ne_nil : Nat.toDigits 10 i.toInt.toNat ≠ [])
  rw [e] at run digits ⊢
  have hd := digits d List.mem_cons_self
  have apart {x : Char} (hx : x.isDigit = false) : d ≠ x := by
    rintro rfl
    rw [hd] at hx
    cases hx
  have bracket : d ∉ ['(', '[', '{'] := by
    simpa using And.intro (apart rfl : d ≠ '(') (And.intro (apart rfl : d ≠ '[') (apart rfl : d ≠ '{'))
  have quote : ¬ (decide (d = '"') || decide (d = '\'')) = true := by
    simpa using And.intro (apart rfl : d ≠ '"') (apart rfl : d ≠ '\'')
  refine takes_primary hg (isBlank_of_isIdentRest (by simp [isIdentRest, Char.isAlphanum, hd])) bracket ?_
  rw [if_neg quote, if_pos hd]
  exact run.bind .pure

theorem stringBody_of_escaped {quote : Char} {content chars : List Char} (h : Escaped quote content chars)
    (hq : '\\' ≠ quote) : stringBody quote (chars ++ quote :: after) = some (content, after) := by
  induction h with
  | nil => rw [List.nil_append, stringBody.eq_def]; simp
  | plain hc hb _ ih => rw [List.cons_append, stringBody.eq_def]; simp [hc, hb, ih]
  | same _ _ _ _ ih | newline _ ih | tab _ ih | «return» _ ih => rw [List.cons_append, stringBody.eq_def]; simp [hq, ih]

theorem takes_primary_string {quote : Char} {s : String} {chars : List Char} (hg : IsBlank gap)
    (hq : quote = '"' ∨ quote = '\'') (h : Escaped quote s.toList chars) :
    Takes (primary inner bound) (gap ++ (quote :: (chars ++ quote :: after))) (.literal (.string s)) after := by
  have run : Takes (stringLiteral quote) (quote :: (chars ++ quote :: after)) s after := by
    have body : stringBody quote (chars ++ quote :: after) = some (s.toList, after) := by
      refine stringBody_of_escaped h ?_
      rcases hq with rfl | rfl <;> decide
    refine .rest ?_
    rw [List.drop_one, List.tail_cons, body]
    refine .goto ?_
    rw [String.ofList_toList]
    exact .pure
  have quoted : (decide (quote = '"') || decide (quote = '\'')) = true := by simpa using hq
  refine takes_primary hg ?_ ?_ ?_
  · rcases hq with rfl | rfl <;> rfl
  · rcases hq with rfl | rfl <;> decide
  · rw [if_pos quoted]
    exact run.bind .pure

end Primary

/-! ### Brackets -/

section Brackets

variable {α : Type}

theorem stops_closing {c : Char} (h : c ∈ [')', ']', '}', ',', ':']) : Stops 0 (c :: text) := by
  have closing : [')', ']', '}', ',', ':'].all
      (fun c => !Text.isBlank c && !isIdentStart c && (symbolLevel? c).isNone) = true := by decide
  have own := List.all_eq_true.1 closing c h
  simp only [Bool.and_eq_true, Bool.not_eq_true', Option.isNone_iff_eq_none] at own
  obtain ⟨⟨hb, hs⟩, hl⟩ := own
  exact stops_of_symbol hb hs (by simp [hl])

/-- The parser of an item of a list reads the text as the item, up to a comma or the end of the list. -/
def ItemAt (limit : Nat) (item : Parser α) (chars : List Char) (value : α) : Prop :=
  ∀ rest, Starts 0 (chars ++ rest) ∧
    ((chars ++ rest).length < limit → Stops 0 rest → Takes item (chars ++ rest) value rest)

/-- The first of several items, and the others behind its comma. -/
theorem written_commaSeparated {print : α → List Token} {first second : α} {others : List α} {chars : List Char}
    (hw : Written (commaSeparated ((first :: second :: others).map print)) chars) : ∃ one space more, IsBlank space ∧
      Written (print first) one ∧ Written (commaSeparated ((second :: others).map print)) more ∧
      chars = one ++ (",".toList ++ (space ++ more)) := by
  rw [commaSeparated, List.map_cons, List.map_cons, List.intercalate_cons_cons, ← List.map_cons] at hw
  obtain ⟨front, more, rfl, hw, hm⟩ := written_append.1 hw
  obtain ⟨one, mark, rfl, ho, hc⟩ := written_append.1 hw
  obtain ⟨c, space, hs, rfl⟩ := written_symbol hc
  exact ⟨one, c :: space, more, hs, ho, hm, by simp⟩

theorem takes_listUntil {close : String} {c : Char} (hc : close.toList = [c]) (hm : c ∈ [')', ']', '}'])
    {item : Parser α}
    {print : α → List Token} {limit : Nat} {values : List α}
    (hv : ∀ v ∈ values, ∀ chars, Written (print v) chars → ItemAt limit item chars v) {chars : List Char}
    (hw : Written (commaSeparated (values.map print)) chars) (hg : IsBlank gap) {rounds : Nat}
    (hr : chars.length < rounds) (hl : (chars ++ c :: text).length < limit) :
    Takes (listUntil close item rounds) (gap ++ (chars ++ c :: text)) values text := by
  have closing : Stops 0 (c :: text) := stops_closing (List.mem_append_left [',', ':'] hm)
  have comma : (c :: text).head? ≠ some ',' := by
    rintro ⟨⟩
    exact absurd hm (by decide)
  have closed : Takes (expect close) (c :: text) () text := by
    have run : Takes (expect close) (close.toList ++ text) () text := takes_expect close
    rwa [hc] at run
  induction values generalizing chars gap rounds with
  | nil =>
    obtain ⟨rounds, rfl⟩ := Nat.exists_eq_succ_of_ne_zero (by omega : rounds ≠ 0)
    cases hw
    have run : Takes (consume close) (close.toList ++ text) true text := takes_consume close
    rw [hc] at run
    exact (takes_skipBlank hg closing.solid).bind (.yes run .pure)
  | cons v values ih =>
    obtain ⟨rounds, rfl⟩ := Nat.exists_eq_succ_of_ne_zero (by omega : rounds ≠ 0)
    have last := takes_skipBlank_here closing.solid
    cases values with
    | nil =>
      have item := hv v List.mem_cons_self chars (by simpa [commaSeparated] using hw) (c :: text)
      refine (takes_skipBlank hg item.1.solid).bind (.no (takes_consume_ne hc (item.1.close c hm)) ?_)
      refine (item.2 hl closing).bind (last.bind (.no (takes_consume_ne rfl comma) ?_))
      exact closed.bind .pure
    | cons next values =>
      obtain ⟨first, space, others, hs, hf, ho, rfl⟩ := written_commaSeparated hw
      simp only [List.append_assoc] at hl ⊢
      have item := hv v List.mem_cons_self first hf (",".toList ++ (space ++ (others ++ c :: text)))
      have comma' : Stops 0 (",".toList ++ (space ++ (others ++ c :: text))) := stops_closing (by decide)
      have shorter : others.length < rounds ∧ (others ++ c :: text).length < limit := by
        have : ",".toList.length = 1 := rfl
        simp only [List.length_append] at hr hl ⊢
        omega
      have more := ih (fun v m => hv v (List.mem_cons_of_mem _ m)) ho hs shorter.1 shorter.2
      refine (takes_skipBlank hg item.1.solid).bind (.no (takes_consume_ne hc (item.1.close c hm)) ?_)
      exact (item.2 hl comma').bind ((takes_skipBlank_here comma'.solid).bind
        (.yes (takes_consume ",") (more.bind .pure)))

/-- What stands behind an opening bracket is read as the items, up to the blanks behind the closing one. -/
theorem takes_bracketed {opening closing : String} {c : Char} (ho : opening.toList ≠ []) (hc : closing.toList = [c])
    (hm : c ∈ [')', ']', '}']) {item : Parser α} {print : α → List Token} {depth bound : Nat} {values : List α}
    (hv : ∀ v ∈ values, ∀ chars, Written (print v) chars → ItemAt depth item chars v) {chars : List Char}
    (hw : Written (bracketed opening (values.map print) closing) chars) (hb : Fits depth bound (chars ++ text)) :
    ∃ inside space, IsBlank space ∧ chars ++ text = opening.toList ++ inside ∧
      Takes (listUntil closing item bound) inside values (space ++ text) := by
  obtain ⟨gap, _, -, hg, hm', rfl⟩ := written_mark_cons hw
  obtain ⟨items, close, rfl, hi, hclose⟩ := written_append.1 hm'
  obtain ⟨d, space, hs, rfl⟩ := written_symbol hclose
  rw [hc] at hb ⊢
  have shorter : (items ++ c :: (d :: space ++ text)).length < depth ∧ items.length < bound := by
    have := List.length_pos_iff.2 ho
    simp only [Fits, List.length_append, List.length_cons] at hb ⊢
    omega
  exact ⟨gap ++ (items ++ c :: (d :: space ++ text)), d :: space, hs, by simp,
    takes_listUntil hc hm hv hi hg shorter.2 shorter.1⟩

/-- No printed argument looks like a named one. -/
theorem takes_skipArgumentName {tokens : List Token} {chars : List Char} {level : Nat} (hl : Led level tokens)
    (hp : Plain tokens) (hw : Written tokens chars) (hs : Stops 0 text) :
    Takes skipArgumentName (chars ++ text) () (chars ++ text) := by
  obtain ⟨token, tokens, rfl, -⟩ := hl
  obtain ⟨first, gap, more, rfl, ht, hne, hg, hw⟩ := written_cons.1 hw
  have behind : IsSolid (more ++ text) ∧ ∀ value, more ++ text = '=' :: value → ∃ rest, value = '=' :: rest := by
    cases hw with
    | nil =>
      refine ⟨hs.solid, fun value e => ?_⟩
      have := hs.head_ne (c := '=') (Nat.zero_le 4) rfl rfl nofun
      rw [List.nil_append] at e
      rw [e] at this
      exact absurd rfl this
    | @cons next _ chars _ _ ht' _ _ _ =>
      have head := Token.head_of_written ht' (hp next (by simp))
      rw [List.append_assoc]
      refine ⟨head.solid, fun value e => ?_⟩
      obtain ⟨c, letters, rfl, -, he⟩ := head.cons
      rw [List.cons_append] at e
      obtain ⟨rfl, rfl⟩ := List.cons.inj e
      obtain ⟨rest, rfl⟩ := he rfl
      exact ⟨_, rfl⟩
  have ends : EndsWord (gap ++ (more ++ text)) := endsWord_of_isBlank hg hne
  refine .rest ?_
  rw [List.append_assoc, List.append_assoc]
  obtain none | ⟨name, found, -⟩ := identifier?_of_written ht (hp token List.mem_cons_self) ends
  · rw [none]
    exact .pure
  · rw [found]
    dsimp only
    rw [dropWhile_isBlank hg behind.1]
    split
    · exact .pure
    · rename_i value other e
      obtain ⟨rest, rfl⟩ := behind.2 value e
      exact absurd rfl (other rest)
    · exact .pure

end Brackets

end Folio.Template.Parser
