import Folio.Proofs.Template.Reading

/-! Expressions as text. An expression is printed as tokens, with parentheses where its operator binds more loosely than
its place demands; tokens become text with blanks behind each of them. -/
namespace Folio

/-! ### Levels -/

/-- How tightly an operator binds; an inline `if` has level zero. -/
def Operator.level : Operator → Nat
  | .concat => 5
  | .add | .sub => 6
  | .mul | .div | .floorDiv | .rem | .pow => 7

def Operator.symbol : Operator → String
  | .add => "+"
  | .sub => "-"
  | .mul => "*"
  | .div => "/"
  | .floorDiv => "//"
  | .rem => "%"
  | .pow => "**"
  | .concat => "~"

/-- How tightly the outermost operator of an expression binds. -/
def Expr.level : Expr → Nat
  | .inlineIf _ _ _ => 0
  | .or _ _ => 1
  | .and _ _ => 2
  | .not _ => 3
  | .compare _ _ _ => 4
  | .binary op _ _ => op.level
  | .neg _ => 8
  | _ => 9

theorem Operator.level_le (op : Operator) : op.level ≤ 7 := by
  cases op <;> decide

theorem Expr.level_le (e : Expr) : e.level ≤ 9 := by
  cases e with
  | binary op => exact le_trans op.level_le (by decide)
  | _ => simp [level]

namespace Template

/-! ### Tokens -/

inductive Token where
  | literal (value : Value)
  | word (name : String)
  | mark (symbol : String)

def comparisonTokens : Comparison → List Token
  | .eq => [.mark "=="]
  | .ne => [.mark "!="]
  | .lt => [.mark "<"]
  | .le => [.mark "<="]
  | .gt => [.mark ">"]
  | .ge => [.mark ">="]
  | .isIn => [.word "in"]
  | .notIn => [.word "not", .word "in"]

/-- Items with commas between them. -/
def commaSeparated (items : List (List Token)) : List Token :=
  [.mark ","].intercalate items

/-- What holds of a comma and of the tokens of the items holds of them all. -/
theorem forall_mem_commaSeparated {p : Token → Prop} (comma : p (.mark ",")) {items : List (List Token)}
    (h : ∀ item ∈ items, ∀ t ∈ item, p t) : ∀ t ∈ commaSeparated items, p t := by
  induction items with
  | nil => exact nofun
  | cons item items ih =>
    have rest := ih fun item m => h item (List.mem_cons_of_mem _ m)
    have first := h item List.mem_cons_self
    cases items with
    | nil => simpa [commaSeparated] using first
    | cons next items =>
      rw [commaSeparated, List.intercalate_cons_cons]
      exact List.forall_mem_append.2 ⟨List.forall_mem_append.2 ⟨first, List.forall_mem_singleton.2 comma⟩, rest⟩

def bracketed (opening : String) (items : List (List Token)) (closing : String) : List Token :=
  .mark opening :: (commaSeparated items ++ [.mark closing])

section Tokens

/- Where parentheses are put that need not be. -/
variable (extra : Expr → Bool)

/-- The tokens of an expression in a place for operators of a level and above. -/
def enclosed (level : Nat) (e : Expr) (tokens : List Token) : List Token :=
  if e.level < level || extra e then .mark "(" :: (tokens ++ [.mark ")"]) else tokens

mutual

/-- An operator that associates to the left has its own level on the left and the next one on the right. Calls, filters
and tests always have their arguments. -/
def tokens : Expr → List Token
  | .literal value => [.literal value]
  | .var name => [.word name]
  | .lookup base key =>
    enclosed extra 9 base (tokens base) ++ .mark "[" :: (enclosed extra 0 key (tokens key) ++ [.mark "]"])
  | .and left right => enclosed extra 2 left (tokens left) ++ .word "and" :: enclosed extra 3 right (tokens right)
  | .or left right => enclosed extra 1 left (tokens left) ++ .word "or" :: enclosed extra 2 right (tokens right)
  | .not inner => .word "not" :: enclosed extra 3 inner (tokens inner)
  | .isDefined target => enclosed extra 9 target (tokens target) ++ [.word "is", .word "defined"]
  | .filter name target args =>
    enclosed extra 9 target (tokens target) ++ .mark "|" :: .word name :: bracketed "(" (tokensOfAll args) ")"
  | .compare op left right =>
    enclosed extra 4 left (tokens left) ++ (comparisonTokens op ++ enclosed extra 5 right (tokens right))
  | .binary op left right =>
    enclosed extra op.level left (tokens left) ++ .mark op.symbol :: enclosed extra (op.level + 1) right (tokens right)
  | .neg inner => .mark "-" :: enclosed extra 8 inner (tokens inner)
  | .call callee args => enclosed extra 9 callee (tokens callee) ++ bracketed "(" (tokensOfAll args) ")"
  | .test name target args negated =>
    enclosed extra 9 target (tokens target) ++
      .word "is" :: ((if negated then [.word "not"] else []) ++ .word name :: bracketed "(" (tokensOfAll args) ")")
  | .list items => bracketed "[" (tokensOfAll items) "]"
  | .dict entries => bracketed "\x7b" (tokensOfEntries entries) "\x7d"
  | .inlineIf value condition otherwise =>
    enclosed extra 1 value (tokens value) ++
      .word "if" :: (enclosed extra 1 condition (tokens condition) ++ tokensOfOtherwise otherwise)

def tokensOfAll : List Expr → List (List Token)
  | [] => []
  | e :: es => enclosed extra 0 e (tokens e) :: tokensOfAll es

def tokensOfEntries : List (Expr × Expr) → List (List Token)
  | [] => []
  | (key, value) :: entries =>
    (enclosed extra 0 key (tokens key) ++ .mark ":" :: enclosed extra 0 value (tokens value)) :: tokensOfEntries entries

def tokensOfOtherwise : Option Expr → List Token
  | none => []
  | some e => .word "else" :: enclosed extra 0 e (tokens e)

end

/-- The tokens of an expression in a place of a level. -/
def tokensAt (level : Nat) (e : Expr) : List Token :=
  enclosed extra level e (tokens extra e)

theorem tokensOfAll_eq (es : List Expr) : tokensOfAll extra es = es.map (tokensAt extra 0) := by
  induction es with
  | nil => simp [tokensOfAll]
  | cons e es ih => simp [tokensOfAll, tokensAt, ih]

theorem tokensOfEntries_eq (entries : List (Expr × Expr)) : tokensOfEntries extra entries =
    entries.map (fun (key, value) => tokensAt extra 0 key ++ .mark ":" :: tokensAt extra 0 value) := by
  induction entries with
  | nil => simp [tokensOfEntries]
  | cons entry entries ih => simp [tokensOfEntries, tokensAt, ih]

end Tokens

/-! ### Text -/

/-- A string with its quotes and backslashes escaped. Any character but those that stand for another may be. -/
inductive Escaped (quote : Char) : List Char → List Char → Prop
  | nil : Escaped quote [] []
  | plain {c : Char} {content text : List Char} : c ≠ quote → c ≠ '\\' → Escaped quote content text →
    Escaped quote (c :: content) (c :: text)
  | same {c : Char} {content text : List Char} : c ≠ 'n' → c ≠ 't' → c ≠ 'r' → Escaped quote content text →
    Escaped quote (c :: content) ('\\' :: c :: text)
  | newline {content text : List Char} :
    Escaped quote content text → Escaped quote ('\n' :: content) ('\\' :: 'n' :: text)
  | tab {content text : List Char} : Escaped quote content text → Escaped quote ('\t' :: content) ('\\' :: 't' :: text)
  | return {content text : List Char} :
    Escaped quote content text → Escaped quote ('\r' :: content) ('\\' :: 'r' :: text)

/-- The words for a constant. -/
def constantWords : Value → List String
  | .bool true => ["true", "True"]
  | .bool false => ["false", "False"]
  | .null => ["none", "None", "null"]
  | _ => []

/-- The texts of a token. -/
inductive Token.Written : Token → List Char → Prop
  | word (name : String) : Written (.word name) name.toList
  | mark (symbol : String) : Written (.mark symbol) symbol.toList
  | int (i : Int64) : Written (.literal (.int i)) (Nat.toDigits 10 i.toInt.toNat)
  | string {quote : Char} {s : String} {text : List Char} : quote = '"' ∨ quote = '\'' → Escaped quote s.toList text →
    Written (.literal (.string s)) (quote :: (text ++ [quote]))
  | constant {value : Value} {word : String} : word ∈ constantWords value → Written (.literal value) word.toList

/-- The texts of tokens, each of which has blanks behind it. -/
inductive Written : List Token → List Char → Prop
  | nil : Written [] []
  | cons {token : Token} {tokens : List Token} {chars gap text : List Char} : token.Written chars → gap ≠ [] →
    IsBlank gap → Written tokens text → Written (token :: tokens) (chars ++ (gap ++ text))

theorem written_append {first second : List Token} {text : List Char} :
    Written (first ++ second) text ↔ ∃ one two, text = one ++ two ∧ Written first one ∧ Written second two := by
  induction first generalizing text with
  | nil =>
    constructor
    · exact fun h => ⟨[], text, rfl, .nil, h⟩
    · rintro ⟨one, two, rfl, h, h'⟩
      cases h
      exact h'
  | cons token first ih =>
    constructor
    · rintro (_ | ⟨ht, hne, hg, h⟩)
      obtain ⟨one, two, rfl, h, h'⟩ := ih.1 h
      exact ⟨_, two, by simp, .cons ht hne hg h, h'⟩
    · rintro ⟨one, two, rfl, h, h'⟩
      obtain _ | ⟨ht, hne, hg, h⟩ := h
      simpa using Written.cons ht hne hg (ih.2 ⟨_, two, rfl, h, h'⟩)

theorem written_cons {token : Token} {tokens : List Token} {text : List Char} :
    Written (token :: tokens) text ↔ ∃ chars gap more, text = chars ++ (gap ++ more) ∧ token.Written chars ∧
      gap ≠ [] ∧ IsBlank gap ∧ Written tokens more := by
  constructor
  · rintro (_ | ⟨ht, hne, hg, h⟩)
    exact ⟨_, _, _, rfl, ht, hne, hg, h⟩
  · rintro ⟨chars, gap, more, rfl, ht, hne, hg, h⟩
    exact .cons ht hne hg h

theorem ne_nil_of_written {token : Token} {tokens : List Token} {text : List Char}
    (h : Written (token :: tokens) text) :
    text ≠ [] := by
  obtain ⟨chars, gap, more, rfl, -, hne, -, -⟩ := written_cons.1 h
  simp [hne]

theorem written_mark_cons {symbol : String} {tokens : List Token} {text : List Char}
    (h : Written (.mark symbol :: tokens) text) : ∃ gap more, gap ≠ [] ∧ IsBlank gap ∧ Written tokens more ∧
      text = symbol.toList ++ (gap ++ more) := by
  obtain ⟨chars, gap, more, rfl, hc, hne, hg, hm⟩ := written_cons.1 h
  cases hc
  exact ⟨gap, more, hne, hg, hm, rfl⟩

theorem written_word_cons {word : String} {tokens : List Token} {text : List Char}
    (h : Written (.word word :: tokens) text) : ∃ gap more, gap ≠ [] ∧ IsBlank gap ∧ Written tokens more ∧
      text = word.toList ++ (gap ++ more) := by
  obtain ⟨chars, gap, more, rfl, hc, hne, hg, hm⟩ := written_cons.1 h
  cases hc
  exact ⟨gap, more, hne, hg, hm, rfl⟩

theorem written_symbol {symbol : String} {text : List Char} (h : Written [.mark symbol] text) :
    ∃ c gap, IsBlank (c :: gap) ∧ text = symbol.toList ++ c :: gap := by
  obtain ⟨gap, more, hne, hg, hm, rfl⟩ := written_mark_cons h
  cases hm
  obtain ⟨c, gap, rfl⟩ := List.exists_cons_of_ne_nil hne
  rw [List.append_nil]
  exact ⟨c, gap, hg, rfl⟩

theorem written_keyword {word : String} {text : List Char} (h : Written [.word word] text) :
    ∃ gap, IsBlank gap ∧ gap ≠ [] ∧ text = word.toList ++ gap := by
  obtain ⟨gap, more, hne, hg, hm, rfl⟩ := written_word_cons h
  cases hm
  rw [List.append_nil]
  exact ⟨gap, hg, hne, rfl⟩

/-! ### Expressions that have a text -/

/-- Words that an operand cannot have for a name. -/
def reserved : List String :=
  ["not", "true", "True", "false", "False", "none", "None", "null"]

/-- The expressions that a text can give: numbers are not negative, names are identifiers and do not mean something
else where they stand. -/
inductive Printable : Expr → Prop
  | int {i : Int64} : 0 ≤ i.toInt → Printable (.literal (.int i))
  | string (s : String) : Printable (.literal (.string s))
  | bool (b : Bool) : Printable (.literal (.bool b))
  | null : Printable (.literal .null)
  | var {name : String} : isIdentifier name → name ∉ reserved → Printable (.var name)
  | lookup {base key : Expr} : Printable base → Printable key → Printable (.lookup base key)
  | and {left right : Expr} : Printable left → Printable right → Printable (.and left right)
  | or {left right : Expr} : Printable left → Printable right → Printable (.or left right)
  | not {inner : Expr} : Printable inner → Printable (.not inner)
  | isDefined {target : Expr} : Printable target → Printable (.isDefined target)
  | filter {name : String} {target : Expr} {args : List Expr} : isIdentifier name → Printable target →
    (∀ e ∈ args, Printable e) → Printable (.filter name target args)
  | compare (op : Comparison) {left right : Expr} :
    Printable left → Printable right → Printable (.compare op left right)
  | binary (op : Operator) {left right : Expr} : Printable left → Printable right → Printable (.binary op left right)
  | neg {inner : Expr} : Printable inner → Printable (.neg inner)
  | call {callee : Expr} {args : List Expr} :
    Printable callee → (∀ e ∈ args, Printable e) → Printable (.call callee args)
  | test {name : String} {target : Expr} {args : List Expr} (negated : Bool) : isIdentifier name →
    name ∉ ["defined", "undefined", "not"] → Printable target → (∀ e ∈ args, Printable e) →
    Printable (.test name target args negated)
  | list {items : List Expr} : (∀ e ∈ items, Printable e) → Printable (.list items)
  | dict {entries : List (Expr × Expr)} :
    (∀ entry ∈ entries, Printable entry.1) → (∀ entry ∈ entries, Printable entry.2) → Printable (.dict entries)
  | inlineIf {value condition : Expr} {otherwise : Option Expr} : Printable value → Printable condition →
    (∀ e ∈ otherwise, Printable e) → Printable (.inlineIf value condition otherwise)

/-! ### The tokens of an expression -/

/-- Symbols that stand in expressions. An equals sign alone is none of them. -/
def symbols : List String :=
  ["(", ")", "[", "]", "\x7b", "\x7d", ",", ":", "|", "==", "!=", "<", "<=", ">", ">=", "+", "-", "*", "/", "//", "%",
    "**", "~"]

/-- The values that a word, a number or a string stands for. -/
def isConstant : Value → Bool
  | .int _ | .string _ | .bool _ | .null => true
  | _ => false

def Token.IsPlain : Token → Prop
  | .literal value => isConstant value
  | .word name => isIdentifier name
  | .mark symbol => symbol ∈ symbols

instance : DecidablePred Token.IsPlain
  | .literal value => inferInstanceAs (Decidable (isConstant value))
  | .word name => inferInstanceAs (Decidable (isIdentifier name))
  | .mark symbol => inferInstanceAs (Decidable (symbol ∈ symbols))

/-- Tokens that an operand of a level can start with. -/
def Token.Leads (level : Nat) : Token → Prop
  | .literal _ => True
  | .word name => isIdentifier name ∧ (3 < level → name ≠ "not")
  | .mark symbol => symbol ∈ ["(", "[", "\x7b"] ∨ symbol = "-" ∧ level ≤ 8

theorem Token.Leads.mono {token : Token} {level higher : Nat} (h : token.Leads higher) (hl : level ≤ higher) :
    token.Leads level := by
  cases token with
  | literal => trivial
  | word name => exact ⟨h.1, fun l => h.2 (Nat.lt_of_lt_of_le l hl)⟩
  | mark symbol => exact h.imp id fun m => ⟨m.1, le_trans hl m.2⟩

section Tokens

variable {extra : Expr → Bool}

/-- The tokens of an operand of a level start with one that it can start with. -/
def Led (level : Nat) (tokens : List Token) : Prop :=
  ∃ token more, tokens = token :: more ∧ token.Leads level

theorem led_cons {level : Nat} {token : Token} {more : List Token} (h : token.Leads level) :
    Led level (token :: more) :=
  ⟨token, more, rfl, h⟩

theorem Led.append {level higher : Nat} {tokens more : List Token} (h : Led higher tokens) (hl : level ≤ higher) :
    Led level (tokens ++ more) := by
  obtain ⟨token, behind, rfl, h⟩ := h
  exact ⟨token, behind ++ more, rfl, h.mono hl⟩

theorem led_enclosed {level : Nat} {e : Expr} {tokens : List Token} (h : Led e.level tokens) :
    Led level (enclosed extra level e tokens) := by
  rw [enclosed]
  split
  · exact ⟨_, _, rfl, .inl (by decide)⟩
  · rename_i n
    simp only [Bool.or_eq_true, decide_eq_true_eq, not_or, Nat.not_lt] at n
    obtain ⟨token, more, rfl, h⟩ := h
    exact led_cons (h.mono n.1)

theorem led_tokens {e : Expr} (h : Printable e) : Led e.level (tokens extra e) := by
  induction h with
  | int | string | bool | null => exact tokens.eq_1 extra _ ▸ led_cons trivial
  | var hn hr =>
    rw [tokens]
    refine led_cons ⟨hn, fun _ => ?_⟩
    rintro rfl
    exact hr (by decide)
  | not => rw [tokens]; exact led_cons ⟨by decide, nofun⟩
  | neg => rw [tokens]; exact led_cons (.inr ⟨rfl, le_rfl⟩)
  | list => rw [tokens, bracketed]; exact led_cons (.inl (by decide))
  | dict => rw [tokens, bracketed]; exact led_cons (.inl (by decide))
  | inlineIf _ _ _ left => rw [tokens]; exact (led_enclosed left).append (Nat.zero_le _)
  | and _ _ left | or _ _ left | compare _ _ _ left | binary _ _ _ left | lookup _ _ left | call _ _ left =>
    rw [tokens]
    exact (led_enclosed left).append le_rfl
  | isDefined _ target | filter _ _ _ target | test _ _ _ _ _ target =>
    rw [tokens]
    exact (led_enclosed target).append le_rfl

theorem led_tokensAt {e : Expr} (h : Printable e) (level : Nat) : Led level (tokensAt extra level e) :=
  led_enclosed (led_tokens h)

def Plain (tokens : List Token) : Prop :=
  ∀ t ∈ tokens, t.IsPlain

theorem plain_nil : Plain [] :=
  nofun

theorem plain_mark {symbol : String} {more : List Token} (hs : symbol ∈ symbols) (h : Plain more) :
    Plain (.mark symbol :: more) :=
  List.forall_mem_cons.2 ⟨hs, h⟩

theorem plain_word {name : String} {more : List Token} (hn : isIdentifier name) (h : Plain more) :
    Plain (.word name :: more) :=
  List.forall_mem_cons.2 ⟨hn, h⟩

theorem Plain.append {first second : List Token} (h : Plain first) (h' : Plain second) : Plain (first ++ second) :=
  List.forall_mem_append.2 ⟨h, h'⟩

theorem plain_bracketed {opening closing : String} {items : List (List Token)} (ho : opening ∈ symbols)
    (hc : closing ∈ symbols) (h : ∀ item ∈ items, Plain item) : Plain (bracketed opening items closing) :=
  plain_mark ho (Plain.append (forall_mem_commaSeparated (p := Token.IsPlain) (by decide) h) (plain_mark hc plain_nil))

theorem plain_enclosed {level : Nat} {e : Expr} {tokens : List Token} (h : Plain tokens) :
    Plain (enclosed extra level e tokens) := by
  rw [enclosed]
  split
  · exact plain_mark (by decide) (h.append (plain_mark (by decide) plain_nil))
  · exact h

theorem plain_items {items : List Expr} (h : ∀ e ∈ items, Plain (tokens extra e)) {opening closing : String}
    (ho : opening ∈ symbols) (hc : closing ∈ symbols) :
    Plain (bracketed opening (tokensOfAll extra items) closing) := by
  refine plain_bracketed ho hc fun item m => ?_
  rw [tokensOfAll_eq] at m
  obtain ⟨e, me, rfl⟩ := List.mem_map.1 m
  exact plain_enclosed (h e me)

theorem plain_tokens {e : Expr} (h : Printable e) : Plain (tokens extra e) := by
  induction h with
  | int | string | bool | null => rw [tokens]; exact List.forall_mem_singleton.2 rfl
  | var hn => rw [tokens]; exact plain_word hn plain_nil
  | lookup _ _ base key =>
    rw [tokens]
    have close : Plain [.mark "]"] := plain_mark (by decide) plain_nil
    exact (plain_enclosed base).append (plain_mark (by decide) ((plain_enclosed key).append close))
  | and _ _ left right | or _ _ left right =>
    rw [tokens]
    exact (plain_enclosed left).append (plain_word (by decide) (plain_enclosed right))
  | not _ inner => rw [tokens]; exact plain_word (by decide) (plain_enclosed inner)
  | isDefined _ target =>
    rw [tokens]
    exact (plain_enclosed target).append (plain_word (by decide) (plain_word (by decide) plain_nil))
  | filter hn _ _ target args =>
    rw [tokens]
    exact (plain_enclosed target).append (plain_mark (by decide)
      (plain_word hn (plain_items args (by decide) (by decide))))
  | compare op _ _ left right =>
    have comparison : Plain (comparisonTokens op) := by
      cases op with
      | isIn => exact plain_word (by decide) plain_nil
      | notIn => exact plain_word (by decide) (plain_word (by decide) plain_nil)
      | _ => exact plain_mark (by decide) plain_nil
    rw [tokens]
    exact (plain_enclosed left).append (comparison.append (plain_enclosed right))
  | binary op _ _ left right =>
    have symbol : op.symbol ∈ symbols := by cases op <;> decide
    rw [tokens]
    exact (plain_enclosed left).append (plain_mark symbol (plain_enclosed right))
  | neg _ inner => rw [tokens]; exact plain_mark (by decide) (plain_enclosed inner)
  | call _ _ callee args =>
    rw [tokens]
    exact (plain_enclosed callee).append (plain_items args (by decide) (by decide))
  | test negated hn _ _ _ target args =>
    have word : Plain (if negated then [.word "not"] else []) := by
      cases negated with
      | true => exact plain_word (by decide) plain_nil
      | false => exact plain_nil
    rw [tokens]
    refine (plain_enclosed target).append (plain_word (by decide) (word.append (plain_word hn ?_)))
    exact plain_items args (by decide) (by decide)
  | list _ items => rw [tokens]; exact plain_items items (by decide) (by decide)
  | dict _ _ keys values =>
    rw [tokens]
    refine plain_bracketed (by decide) (by decide) fun item m => ?_
    rw [tokensOfEntries_eq] at m
    obtain ⟨entry, me, rfl⟩ := List.mem_map.1 m
    exact (plain_enclosed (keys entry me)).append (plain_mark (by decide) (plain_enclosed (values entry me)))
  | @inlineIf _ _ o _ _ _ value condition otherwise =>
    have alternative : Plain (tokensOfOtherwise extra o) := by
      cases o with
      | none => rw [tokensOfOtherwise]; exact plain_nil
      | some e => rw [tokensOfOtherwise]; exact plain_word (by decide) (plain_enclosed (otherwise e rfl))
    rw [tokens]
    exact (plain_enclosed value).append (plain_word (by decide) ((plain_enclosed condition).append alternative))

theorem plain_tokensAt {e : Expr} (h : Printable e) (level : Nat) : Plain (tokensAt extra level e) :=
  plain_enclosed (plain_tokens h)

end Tokens

/-! ### One text of tokens -/

def escape (content : List Char) : List Char :=
  content.flatMap (fun c => if c = '"' || c = '\\' then ['\\', c] else [c])

/-- A text of the token. -/
def Token.spelling : Token → List Char
  | .literal (.int i) => Nat.toDigits 10 i.toInt.toNat
  | .literal (.string s) => '"' :: (escape s.toList ++ ['"'])
  | .literal value => ((constantWords value).headD "").toList
  | .word name => name.toList
  | .mark symbol => symbol.toList

/-- The text with one blank behind each token. -/
def spelled (tokens : List Token) : List Char :=
  tokens.flatMap (fun token => token.spelling ++ [' '])

theorem escaped_escape (content : List Char) : Escaped '"' content (escape content) := by
  induction content with
  | nil => exact .nil
  | cons c content ih =>
    rw [escape, List.flatMap_cons]
    by_cases h : c = '"' ∨ c = '\\'
    · have : c ≠ 'n' ∧ c ≠ 't' ∧ c ≠ 'r' := by
        rcases h with rfl | rfl <;> decide
      rw [if_pos (by simpa using h)]
      exact .same this.1 this.2.1 this.2.2 ih
    · rw [if_neg (by simpa using h)]
      rw [not_or] at h
      exact .plain h.1 h.2 ih

theorem Token.written_spelling {token : Token} (h : token.IsPlain) : token.Written token.spelling := by
  cases token with
  | word name => exact .word name
  | mark symbol => exact .mark symbol
  | literal value =>
    cases value with
    | int i => exact .int i
    | string s => exact .string (.inl rfl) (escaped_escape s.toList)
    | bool b => cases b <;> exact .constant List.mem_cons_self
    | null => exact .constant List.mem_cons_self
    | undefined | float | date | seq | map => cases h

/-- The tokens all have a text. -/
def Spelt (tokens : List Token) : Prop :=
  ∀ t ∈ tokens, t.Written t.spelling

theorem Plain.spelt {tokens : List Token} (h : Plain tokens) : Spelt tokens :=
  fun t m => Token.written_spelling (h t m)

theorem written_spelled {tokens : List Token} (h : Spelt tokens) : Written tokens (spelled tokens) := by
  induction tokens with
  | nil => exact .nil
  | cons token tokens ih =>
    have rest := ih fun t m => h t (List.mem_cons_of_mem _ m)
    have blank : IsBlank [' '] := List.forall_mem_singleton.2 (by decide)
    rw [spelled, List.flatMap_cons, List.append_assoc]
    exact .cons (h token List.mem_cons_self) (by simp) blank rest

end Template

end Folio
