import Folio.Proofs.Template.Printing

/-! Reading printed expressions back. Each level of the parser reads the operands of its own level and above and stops
at what binds more loosely, so that an expression printed with the parentheses that its operators demand is read as it
was. -/
namespace Folio.Template

variable {text more after gap : List Char}

/-! ### Where a token starts -/

theorem identifier?_eq_none {c : Char} (hb : Text.isBlank c = false) (hc : isIdentStart c = false) :
    identifier? (c :: text) = none := by
  have solid : (c :: text).dropWhile Text.isBlank = c :: text := dropWhile_isBlank isBlank_nil (isSolid_cons hb)
  simp [identifier?, solid, hc]

/-- No keyword starts with a symbol. -/
theorem startsWithWord_cons {word : String} {c : Char} (hw : isIdentifier word) (hb : Text.isBlank c = false)
    (hc : isIdentStart c = false) : startsWithWord word (c :: text) = false := by
  refine startsWithWord_of_identifier? hw fun rest found => ?_
  rw [identifier?_eq_none hb hc] at found
  cases found

theorem isIdentStart_of_isDigit {c : Char} (h : c.isDigit = true) : isIdentStart c = false := by
  have bounds := isDigit_iff.1 h
  have letter : c.isAlpha = false := by
    rw [Bool.eq_false_iff, Ne, isAlpha_iff]
    omega
  have line : c ≠ '_' := by
    rintro rfl
    exact absurd h (by decide)
  simp [isIdentStart, letter, line]

theorem constantWords_spec {value : Value} {word : String} (h : word ∈ constantWords value) :
    isIdentifier word ∧ word ≠ "not" ∧ Parser.nameOrConstant word = .literal value := by
  unfold constantWords at h
  split at h
  · rcases List.mem_pair.1 h with rfl | rfl
    · exact ⟨by decide, by decide, rfl⟩
    · exact ⟨by decide, by decide, rfl⟩
  · rcases List.mem_pair.1 h with rfl | rfl
    · exact ⟨by decide, by decide, rfl⟩
    · exact ⟨by decide, by decide, rfl⟩
  · simp only [List.mem_cons, List.not_mem_nil, or_false] at h
    rcases h with rfl | rfl | rfl
    · exact ⟨by decide, by decide, rfl⟩
    · exact ⟨by decide, by decide, rfl⟩
    · exact ⟨by decide, by decide, rfl⟩
  · cases h

/-- The first character of a word, of a number, of a string and of a symbol. -/
inductive Token.Head : Token → List Char → Prop
  | word {token : Token} {c : Char} {letters : List Char} : isIdentStart c → Head token (c :: letters)
  | digit {value : Value} {c : Char} {digits : List Char} : c.isDigit → Head (.literal value) (c :: digits)
  | quote {value : Value} {c : Char} {content : List Char} : c = '"' ∨ c = '\'' → Head (.literal value) (c :: content)
  | mark {symbol : String} : symbol ∈ symbols → Head (.mark symbol) symbol.toList

theorem Token.head_of_written {token : Token} {chars : List Char} (h : token.Written chars) (hp : token.IsPlain) :
    token.Head chars := by
  cases h with
  | word name =>
    obtain ⟨c, letters, e, hc, -⟩ := isIdentStart_of_isIdentifier hp
    rw [e]
    exact .word hc
  | mark symbol => exact .mark hp
  | int i =>
    have digits : ∀ c ∈ Nat.toDigits 10 i.toInt.toNat, c.isDigit = true := fun c hc =>
      Nat.isDigit_of_mem_toDigits (by decide) (by decide) hc
    obtain ⟨c, more, e⟩ := List.exists_cons_of_ne_nil (Nat.toDigits_ne_nil : Nat.toDigits 10 i.toInt.toNat ≠ [])
    rw [e] at digits ⊢
    exact .digit (digits c List.mem_cons_self)
  | string hq _ => exact .quote hq
  | constant h =>
    obtain ⟨c, letters, e, hc, -⟩ := isIdentStart_of_isIdentifier (constantWords_spec h).1
    rw [e]
    exact .word hc

namespace Token.Head

variable {token : Token} {chars : List Char} (h : token.Head chars)
include h

theorem cons : ∃ c letters, chars = c :: letters ∧ Text.isBlank c = false ∧
    (c = '=' → ∃ more, letters = '=' :: more) := by
  cases h with
  | word hc =>
    refine ⟨_, _, rfl, isBlank_of_isIdentRest (isIdentRest_of_isIdentStart hc), ?_⟩
    rintro rfl
    cases hc
  | digit hc =>
    refine ⟨_, _, rfl, isBlank_of_isIdentRest (by simp [isIdentRest, Char.isAlphanum, hc]), ?_⟩
    rintro rfl
    cases hc
  | quote hc => rcases hc with rfl | rfl <;> exact ⟨_, _, rfl, by decide, fun e => absurd e (by decide)⟩
  | mark hs =>
    have heads : ∀ symbol ∈ symbols, symbol.toList ≠ [] ∧ Text.isBlank (symbol.toList.headD ' ') = false ∧
        (symbol.toList.headD ' ' = '=' → symbol.toList.tail.head? = some '=') := by decide
    rename_i symbol
    obtain ⟨hne, hb, he⟩ := heads symbol hs
    obtain ⟨c, letters, e⟩ := List.exists_cons_of_ne_nil hne
    rw [e] at hb he ⊢
    exact ⟨c, letters, rfl, hb, fun hc => List.head?_eq_some_iff.1 (he hc)⟩

theorem solid : IsSolid (chars ++ more) := by
  obtain ⟨c, letters, rfl, hb, -⟩ := h.cons
  exact isSolid_cons hb

/-- An operand starts with no bracket that closes one, and a lookup and what is tighter with no sign. -/
theorem notMem {level : Nat} (hl : token.Leads level) :
    ∃ c letters, chars = c :: letters ∧ c ∉ [')', ']', '}'] ∧ (8 < level → c ∉ ['-', '+']) := by
  have letter {c : Char} (hc : isIdentRest c = true) : c ∉ [')', ']', '}'] ∧ (8 < level → c ∉ ['-', '+']) := by
    have others : ([')', ']', '}'] ++ ['-', '+']).all (fun d => !isIdentRest d) = true := by decide
    have apart (m : c ∈ [')', ']', '}'] ++ ['-', '+']) : False := by
      have := List.all_eq_true.1 others c m
      rw [hc] at this
      cases this
    exact ⟨fun m => apart (List.mem_append_left _ m), fun _ m => apart (List.mem_append_right _ m)⟩
  cases h with
  | word hc => exact ⟨_, _, rfl, letter (isIdentRest_of_isIdentStart hc)⟩
  | digit hc => exact ⟨_, _, rfl, letter (by simp [isIdentRest, Char.isAlphanum, hc])⟩
  | quote hc => rcases hc with rfl | rfl <;> exact ⟨_, _, rfl, by decide, fun _ => by decide⟩
  | mark hs =>
    rcases hl with hl | ⟨rfl, hl⟩
    · simp only [List.mem_cons, List.not_mem_nil, or_false] at hl
      rcases hl with rfl | rfl | rfl <;> exact ⟨_, _, rfl, by decide, fun _ => by decide⟩
    · exact ⟨_, _, rfl, by decide, fun l => absurd l (by omega)⟩

end Token.Head

/-- Where an operand of a level can start. -/
structure Starts (level : Nat) (text : List Char) : Prop where
  solid : IsSolid text
  close : ∀ c ∈ [')', ']', '}'], text.head? ≠ some c
  sign : 8 < level → ∀ c ∈ ['-', '+'], text.head? ≠ some c
  word : 3 < level → startsWithWord "not" text = false

/-- What the text of a token, with a blank behind it, has for an identifier. -/
theorem identifier?_of_written {token : Token} {chars : List Char} (h : token.Written chars) (hp : token.IsPlain)
    (hr : EndsWord after) : identifier? (chars ++ after) = none ∨
      ∃ name, identifier? (chars ++ after) = some (name, after) ∧ (token = .word name ∨ name ≠ "not") := by
  have head := Token.head_of_written h hp
  cases h with
  | word name => exact .inr ⟨name, identifier?_of_isIdentifier hp isBlank_nil hr, .inl rfl⟩
  | constant h =>
    obtain ⟨hw, hn, -⟩ := constantWords_spec h
    exact .inr ⟨_, identifier?_of_isIdentifier hw isBlank_nil hr, .inr hn⟩
  | mark symbol =>
    have heads : ∀ symbol ∈ symbols, isIdentStart (symbol.toList.headD ' ') = false := by decide
    have hs := heads symbol hp
    obtain ⟨c, letters, e, hb, -⟩ := head.cons
    rw [e] at hs ⊢
    exact .inl (identifier?_eq_none hb hs)
  | int i =>
    obtain ⟨c, letters, e, hb, -⟩ := head.cons
    have digit : c.isDigit = true :=
      Nat.isDigit_of_mem_toDigits (by decide) (by decide) (e ▸ List.mem_cons_self : c ∈ Nat.toDigits 10 i.toInt.toNat)
    rw [e]
    exact .inl (identifier?_eq_none hb (isIdentStart_of_isDigit digit))
  | string hq _ =>
    left
    rcases hq with rfl | rfl <;> exact identifier?_eq_none (by decide) (by decide)

theorem starts_of_written {level : Nat} {token : Token} {chars : List Char} (h : token.Written chars)
    (hp : token.IsPlain) (hl : token.Leads level) (hr : EndsWord after) : Starts level (chars ++ after) := by
  have head := Token.head_of_written h hp
  obtain ⟨c, letters, e, close, sign⟩ := head.notMem hl
  refine ⟨head.solid, ?_, ?_, ?_⟩
  · rintro d m f
    rw [e] at f
    cases f
    exact close m
  · rintro l d m f
    rw [e] at f
    cases f
    exact sign l m
  · intro l
    refine startsWithWord_of_identifier? (by decide) fun rest f => ?_
    obtain none | ⟨name, found, word⟩ := identifier?_of_written h hp hr
    · rw [none] at f; cases f
    · rw [found] at f
      cases f
      rcases word with rfl | word
      · exact hl.2 l rfl
      · exact word rfl

/-! ### Where an operand stops -/

def wordLevel? : String → Option Nat
  | "is" => some 9
  | "in" | "not" => some 4
  | "and" => some 2
  | "or" => some 1
  | "if" | "else" => some 0
  | _ => none

def symbolLevel? : Char → Option Nat
  | '.' | '[' | '(' | '|' => some 9
  | '*' | '/' | '%' => some 7
  | '+' | '-' => some 6
  | '~' => some 5
  | '=' | '!' | '<' | '>' => some 4
  | _ => none

/-- The level of the operator that a text starts with. A percent sign before a brace is none. -/
def operatorLevel? : List Char → Option Nat
  | [] => none
  | c :: rest =>
    if isIdentStart c then (identifier? (c :: rest)).bind (fun found => wordLevel? found.1)
    else if c = '%' ∧ rest.head? = some '}' then none
    else symbolLevel? c

/-- The text goes on with no blank and with no operator of the level or above. -/
structure Stops (level : Nat) (text : List Char) : Prop where
  solid : IsSolid text
  operator : ∀ k ∈ operatorLevel? text, k < level

namespace Stops

variable {level : Nat} (h : Stops level text)
include h

theorem mono {higher : Nat} (hl : level ≤ higher) : Stops higher text :=
  ⟨h.solid, fun k m => Nat.lt_of_lt_of_le (h.operator k m) hl⟩

theorem head_ne {c : Char} {k : Nat} (hk : level ≤ k) (hs : symbolLevel? c = some k) (hc : isIdentStart c = false)
    (hp : c ≠ '%') : text.head? ≠ some c := by
  intro e
  obtain ⟨rest, rfl⟩ := List.head?_eq_some_iff.1 e
  have := h.operator k (by simp [operatorLevel?, hc, hp, hs])
  omega

theorem percent (hl : level ≤ 7) (e : text.head? = some '%') : ∃ rest, text = '%' :: '}' :: rest := by
  obtain ⟨rest, rfl⟩ := List.head?_eq_some_iff.1 e
  by_cases brace : rest.head? = some '}'
  · obtain ⟨rest, rfl⟩ := List.head?_eq_some_iff.1 brace
    exact ⟨rest, rfl⟩
  · have := h.operator 7 (by simp [operatorLevel?, brace, symbolLevel?, isIdentStart])
    omega

theorem word {word : String} {k : Nat} (hk : level ≤ k) (hw : isIdentifier word) (hs : wordLevel? word = some k) :
    startsWithWord word text = false := by
  refine startsWithWord_of_identifier? hw fun rest found => ?_
  cases text with
  | nil => cases found
  | cons c more =>
    have start : isIdentStart c = true := by
      by_contra n
      rw [identifier?_eq_none (h.solid c rfl) (Bool.eq_false_iff.2 n)] at found
      cases found
    have := h.operator k (by simp [operatorLevel?, start, found, hs])
    omega

end Stops

namespace Parser

variable {inner : Parser Expr} {bound level : Nat} {left : Expr}

section Stop

variable (hg : IsBlank gap) (h : Stops level text)
include hg h

theorem takes_productStep_none (hl : level ≤ 7) : Takes (productStep inner bound left) (gap ++ text) none text := by
  have operator : Takes productOperator? (gap ++ text) none text := by
    refine (takes_skipBlank hg h.solid).bind ?_
    have star := h.head_ne (c := '*') hl rfl rfl nofun
    have slash := h.head_ne (c := '/') hl rfl rfl nofun
    refine .no (takes_consume_ne rfl star) (.no (takes_consume_ne rfl star) ?_)
    refine .no (takes_consume_ne rfl slash) (.no (takes_consume_ne rfl slash) ?_)
    by_cases e : text.head? = some '%'
    · obtain ⟨rest, rfl⟩ := h.percent hl e
      exact ⟨fun _ => ⟨_, rfl⟩⟩
    · exact .no (takes_peek_ne rfl e) (.no (takes_consume_ne rfl e) .pure)
  exact operator.bind .pure

theorem takes_sumStep_none (hl : level ≤ 6) : Takes (sumStep inner bound left) (gap ++ text) none text := by
  refine (takes_skipBlank hg h.solid).bind (.no (takes_consume_ne rfl (h.head_ne (c := '+') hl rfl rfl nofun)) ?_)
  have minus := h.head_ne (c := '-') hl rfl rfl nofun
  have close : Takes atTrimmedClose text false text := by
    refine .rest ?_
    rw [startsWith_of_head? rfl minus, startsWith_of_head? rfl minus, startsWith_of_head? rfl minus]
    exact .pure
  exact .no close (.no (takes_consume_ne rfl minus) .pure)

theorem takes_joinStep_none (hl : level ≤ 5) : Takes (joinStep inner bound left) (gap ++ text) none text :=
  (takes_skipBlank hg h.solid).bind (.no (takes_consume_ne rfl (h.head_ne (c := '~') hl rfl rfl nofun)) .pure)

theorem takes_comparisonStep_none (hl : level ≤ 4) :
    Takes (comparisonStep inner bound left) (gap ++ text) none text := by
  have symbol (c : Char) (hs : symbolLevel? c = some 4) (hc : isIdentStart c = false) (hp : c ≠ '%') :
      text.head? ≠ some c := h.head_ne hl hs hc hp
  have operator : Takes comparison? (gap ++ text) none text := by
    refine (takes_skipBlank hg h.solid).bind ?_
    refine .no (takes_consume_ne rfl (symbol '=' rfl rfl nofun)) ?_
    refine .no (takes_consume_ne rfl (symbol '!' rfl rfl nofun)) ?_
    refine .no (takes_consume_ne rfl (symbol '<' rfl rfl nofun)) ?_
    refine .no (takes_consume_ne rfl (symbol '>' rfl rfl nofun)) ?_
    refine .no (takes_consume_ne rfl (symbol '<' rfl rfl nofun)) ?_
    refine .no (takes_consume_ne rfl (symbol '>' rfl rfl nofun)) ?_
    have word (w : String) (hw : isIdentifier w) (hs : wordLevel? w = some 4) : Takes (consumeWord w) text false text :=
      takes_consumeWord_ne_here h.solid (h.word hl hw hs)
    refine .no (word "in" (by decide) rfl) (.no (.get fun _ => ?_) .pure)
    exact .no (word "not" (by decide) rfl) .pure
  exact operator.bind .pure

theorem takes_conjunctionStep_none (hl : level ≤ 2) :
    Takes (conjunctionStep inner bound left) (gap ++ text) none text :=
  .no (takes_consumeWord_ne hg h.solid (h.word hl (by decide) rfl)) .pure

theorem takes_disjunctionStep_none (hl : level ≤ 1) :
    Takes (disjunctionStep inner bound left) (gap ++ text) none text :=
  .no (takes_consumeWord_ne hg h.solid (h.word hl (by decide) rfl)) .pure

theorem takes_postfixStep_none (hl : level ≤ 9) : Takes (postfixStep inner bound left) (gap ++ text) none text := by
  have symbol (c : Char) (hs : symbolLevel? c = some 9) (hc : isIdentStart c = false) (hp : c ≠ '%') :
      text.head? ≠ some c := h.head_ne hl hs hc hp
  refine (takes_skipBlank hg h.solid).bind ?_
  refine .no (takes_consume_ne rfl (symbol '.' rfl rfl nofun)) ?_
  refine .no (takes_consume_ne rfl (symbol '[' rfl rfl nofun)) ?_
  refine .no (takes_peek_ne rfl (symbol '(' rfl rfl nofun)) (.no (takes_consume_ne rfl (symbol '|' rfl rfl nofun)) ?_)
  have word := h.word hl (by decide : isIdentifier "is") rfl
  exact .no (takes_consumeWord_ne_here h.solid word) .pure

end Stop

/-! ### Operators -/

section Operators

/-- The blank behind a symbol tells it from the symbols that it is the start of. -/
theorem startsWith_of_isBlank {token : String} {first second c : Char} {letters : List Char}
    (ht : token.toList = first :: second :: letters) (hs : Text.isBlank second = false) (hc : Text.isBlank c = true) :
    startsWith token (first :: c :: text) = false :=
  startsWith_of_second ht (ne_of_isBlank hc hs)

variable (hg : IsBlank gap)
include hg

theorem takes_productOperator? {op : Operator} (hop : op.level = 7) {c : Char} (hc : Text.isBlank c = true) :
    Takes productOperator? (gap ++ (op.symbol.toList ++ c :: text)) (some op) (c :: text) := by
  cases op with
  | add | sub | concat => cases hop
  | pow => exact (takes_skipBlank hg (isSolid_cons rfl)).bind ⟨fun _ => ⟨_, rfl⟩⟩
  | floorDiv => exact (takes_skipBlank hg (isSolid_cons rfl)).bind ⟨fun _ => ⟨_, rfl⟩⟩
  | mul =>
    refine (takes_skipBlank hg (isSolid_cons rfl)).bind ?_
    exact .no (takes_consume_false (startsWith_of_isBlank rfl rfl hc)) ⟨fun _ => ⟨_, rfl⟩⟩
  | div =>
    refine (takes_skipBlank hg (isSolid_cons rfl)).bind
      (.no (takes_consume_ne rfl nofun) (.no (takes_consume_ne rfl nofun) ?_))
    exact .no (takes_consume_false (startsWith_of_isBlank rfl rfl hc)) ⟨fun _ => ⟨_, rfl⟩⟩
  | rem =>
    refine (takes_skipBlank hg (isSolid_cons rfl)).bind
      (.no (takes_consume_ne rfl nofun) (.no (takes_consume_ne rfl nofun) ?_))
    refine .no (takes_consume_ne rfl nofun) (.no (takes_consume_ne rfl nofun) ?_)
    exact .no (takes_peek_false (startsWith_of_isBlank rfl rfl hc)) ⟨fun _ => ⟨_, rfl⟩⟩

variable {right : Expr} {chars : List Char}

theorem takes_productStep {op : Operator} (hop : op.level = 7) (hw : Written [.mark op.symbol] chars)
    (hr : ∀ space, IsBlank space → Takes (signed inner bound bound) (space ++ text) right after) :
    Takes (productStep inner bound left) (gap ++ (chars ++ text)) (some (.binary op left right)) after := by
  obtain ⟨c, space, hs, rfl⟩ := written_symbol hw
  rw [List.append_assoc]
  exact (takes_productOperator? hg hop (hs c List.mem_cons_self)).bind ((hr _ hs).bind .pure)

theorem takes_sumStep {op : Operator} (hop : op.level = 6) (hw : Written [.mark op.symbol] chars)
    (hr : ∀ space, IsBlank space → Takes (product inner bound) (space ++ text) right after) :
    Takes (sumStep inner bound left) (gap ++ (chars ++ text)) (some (.binary op left right)) after := by
  obtain ⟨c, space, hs, rfl⟩ := written_symbol hw
  rw [List.append_assoc]
  have hc := hs c List.mem_cons_self
  cases op with
  | mul | div | floorDiv | rem | pow | concat => cases hop
  | add =>
    exact (takes_skipBlank hg (isSolid_cons rfl)).bind (.yes (takes_consume "+") ((hr _ hs).bind .pure))
  | sub =>
    refine (takes_skipBlank hg (isSolid_cons rfl)).bind (.no (takes_consume_ne rfl nofun) ?_)
    have minus : Takes atTrimmedClose ('-' :: c :: (space ++ text)) false ('-' :: c :: (space ++ text)) := by
      refine .rest ?_
      rw [startsWith_of_isBlank rfl rfl hc, startsWith_of_isBlank rfl rfl hc, startsWith_of_isBlank rfl rfl hc]
      exact .pure
    exact .no minus (.yes (takes_consume "-") ((hr _ hs).bind .pure))

theorem takes_joinStep (hw : Written [.mark "~"] chars)
    (hr : ∀ space, IsBlank space → Takes (sum inner bound) (space ++ text) right after) :
    Takes (joinStep inner bound left) (gap ++ (chars ++ text)) (some (.binary .concat left right)) after := by
  obtain ⟨c, space, hs, rfl⟩ := written_symbol hw
  rw [List.append_assoc]
  exact (takes_skipBlank hg (isSolid_cons rfl)).bind (.yes (takes_consume "~") ((hr _ hs).bind .pure))

omit hg in
theorem takes_consumeWords {first second : String} {between space : List Char} (hf : isIdentifier first)
    (hs : isIdentifier second) (hb : IsBlank between) (hne : between ≠ []) (he : EndsWord (space ++ text)) :
    Takes (consumeWords first second) (first.toList ++ (between ++ (second.toList ++ (space ++ text)))) true
    (space ++ text) := by
  have behind : EndsWord (between ++ (second.toList ++ (space ++ text))) := endsWord_of_isBlank hb hne
  exact .get fun _ => .yes (takes_consumeWord_here hf behind) (.yes (takes_consumeWord hs hb he) .pure)

omit hg in
theorem head?_ne_of_isIdentifier {word : String} {c : Char} (hw : isIdentifier word) (hc : isIdentStart c = false) :
    (word.toList ++ text).head? ≠ some c := by
  obtain ⟨d, letters, e, hd, -⟩ := isIdentStart_of_isIdentifier hw
  rw [e]
  rintro ⟨⟩
  rw [hd] at hc
  cases hc

/-- In front of a word no symbol is found. -/
theorem takes_comparison?_of_word {word : String} {operator : Option Comparison} (hw : isIdentifier word)
    (h : Takes (do
        if ← consumeWord "in" then return some .isIn
        else if ← consumeWords "not" "in" then return some .notIn
        else return none) (word.toList ++ text) operator after) :
    Takes comparison? (gap ++ (word.toList ++ text)) operator after := by
  have symbol (c : Char) (hc : isIdentStart c = false) : (word.toList ++ text).head? ≠ some c :=
    head?_ne_of_isIdentifier hw hc
  refine (takes_skipBlank hg (isSolid_of_isIdentifier hw)).bind ?_
  refine .no (takes_consume_ne rfl (symbol '=' rfl)) (.no (takes_consume_ne rfl (symbol '!' rfl)) ?_)
  refine .no (takes_consume_ne rfl (symbol '<' rfl)) (.no (takes_consume_ne rfl (symbol '>' rfl)) ?_)
  exact .no (takes_consume_ne rfl (symbol '<' rfl)) (.no (takes_consume_ne rfl (symbol '>' rfl)) h)

/-- The words `not` and `in` are one operator. -/
theorem takes_comparison? {op : Comparison} (hw : Written (comparisonTokens op) chars) :
    ∃ space, IsBlank space ∧ Takes comparison? (gap ++ (chars ++ text)) (some op) (space ++ text) := by
  cases op with
  | eq | ne | le | ge =>
    obtain ⟨c, space, hs, rfl⟩ := written_symbol hw
    exact ⟨c :: space, hs, (takes_skipBlank hg (isSolid_cons rfl)).bind ⟨fun _ => ⟨_, rfl⟩⟩⟩
  | lt =>
    obtain ⟨c, space, hs, rfl⟩ := written_symbol hw
    have other : startsWith "<=" ('<' :: c :: (space ++ text)) = false :=
      startsWith_of_isBlank rfl rfl (hs c List.mem_cons_self)
    refine ⟨c :: space, hs, (takes_skipBlank hg (isSolid_cons rfl)).bind ?_⟩
    refine .no (takes_consume_ne rfl nofun) (.no (takes_consume_ne rfl nofun) (.no (takes_consume_false other) ?_))
    exact .no (takes_consume_ne rfl nofun) ⟨fun _ => ⟨_, rfl⟩⟩
  | gt =>
    obtain ⟨c, space, hs, rfl⟩ := written_symbol hw
    have other : startsWith ">=" ('>' :: c :: (space ++ text)) = false :=
      startsWith_of_isBlank rfl rfl (hs c List.mem_cons_self)
    refine ⟨c :: space, hs, (takes_skipBlank hg (isSolid_cons rfl)).bind ?_⟩
    refine .no (takes_consume_ne rfl nofun) (.no (takes_consume_ne rfl nofun) (.no (takes_consume_ne rfl nofun) ?_))
    exact .no (takes_consume_false other) ⟨fun _ => ⟨_, rfl⟩⟩
  | isIn =>
    obtain ⟨space, hs, hne, rfl⟩ := written_keyword hw
    rw [List.append_assoc]
    refine ⟨space, hs, takes_comparison?_of_word hg (by decide) (.yes ?_ .pure)⟩
    exact takes_consumeWord_here (by decide) (endsWord_of_isBlank hs hne)
  | notIn =>
    obtain ⟨between, _, hne, hb, hin, rfl⟩ := written_word_cons hw
    obtain ⟨space, hs, hne', rfl⟩ := written_keyword hin
    rw [List.append_assoc, List.append_assoc, List.append_assoc]
    have words : Takes (consumeWords "not" "in") ("not".toList ++ (between ++ ("in".toList ++ (space ++ text)))) true
        (space ++ text) := takes_consumeWords (by decide) (by decide) hb hne (endsWord_of_isBlank hs hne')
    refine ⟨space, hs, takes_comparison?_of_word hg (by decide) (.no ?_ (.yes words .pure))⟩
    have other : startsWithWord "in" ("not".toList ++ (between ++ ("in".toList ++ (space ++ text)))) = false :=
      startsWithWord_of_ne (by decide) (by decide) (by decide) (endsWord_of_isBlank hb hne)
    have solid : IsSolid ("not".toList ++ (between ++ ("in".toList ++ (space ++ text)))) :=
      isSolid_of_isIdentifier (by decide)
    exact takes_consumeWord_ne_here solid other

theorem takes_comparisonStep {op : Comparison} (hw : Written (comparisonTokens op) chars)
    (hr : ∀ space, IsBlank space → Takes (join inner bound) (space ++ text) right after) :
    Takes (comparisonStep inner bound left) (gap ++ (chars ++ text)) (some (.compare op left right)) after := by
  obtain ⟨space, hs, run⟩ := takes_comparison? hg hw
  exact run.bind ((hr space hs).bind .pure)

theorem takes_conjunctionStep (hw : Written [.word "and"] chars)
    (hr : ∀ space, IsBlank space → Takes (negation inner bound bound) (space ++ text) right after) :
    Takes (conjunctionStep inner bound left) (gap ++ (chars ++ text)) (some (.and left right)) after := by
  obtain ⟨space, hs, hne, rfl⟩ := written_keyword hw
  rw [List.append_assoc]
  exact .yes (takes_consumeWord (by decide) hg (endsWord_of_isBlank hs hne)) ((hr _ hs).bind .pure)

theorem takes_disjunctionStep (hw : Written [.word "or"] chars)
    (hr : ∀ space, IsBlank space → Takes (conjunction inner bound) (space ++ text) right after) :
    Takes (disjunctionStep inner bound left) (gap ++ (chars ++ text)) (some (.or left right)) after := by
  obtain ⟨space, hs, hne, rfl⟩ := written_keyword hw
  rw [List.append_assoc]
  exact .yes (takes_consumeWord (by decide) hg (endsWord_of_isBlank hs hne)) ((hr _ hs).bind .pure)

end Operators

end Parser

end Folio.Template
