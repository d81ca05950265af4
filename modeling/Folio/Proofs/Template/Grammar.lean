import Folio.Template.Parser.Expression

/-! Relations of parsers along the grammar of expressions. A relation that is kept by sequences and holds of tokens,
names and operands holds of the parsers of all levels of expressions. The second parser of a pair may have larger bounds
on its rounds. -/
namespace Folio.Template.Parser

variable {α β : Type}

/-- A relation of parsers of values of any type. -/
abbrev Likeness := ∀ α : Type, Parser α → Parser α → Prop

/-- The tokens that may stand next in an expression. -/
def possibleTokens : List String :=
  [",", ")", "]", "\x7d", ".", "[", "|", "==", "!=", "<=", ">=", "<", ">", "~"]

/-- The tokens that have to stand next in an expression. -/
def requiredTokens : List String :=
  ["(", ")", "]", "\x7d", ":"]

/-- The words between expressions. -/
def connectives : List String :=
  ["is", "not", "in", "and", "or", "if", "else"]

/-- The relation holds of the parts of which expressions are made, where operands and the operators that could be taken
for the end of a tag depend on what stands in brackets and behind signs. -/
structure Likeness.Carries (R : Likeness) : Prop where
  pure {α : Type} (value : α) : R α (pure value) (pure value)
  exhausted {α : Type} (q : Parser α) : R α exhausted q
  bind {α β : Type} {p q : Parser β} {f g : β → Parser α} : R β p q → (∀ value, R α (f value) (g value)) →
    R α (p >>= f) (q >>= g)
  skipBlank : R Unit skipBlank skipBlank
  peek : R Bool (peek "(") (peek "(")
  consume {token : String} : token ∈ possibleTokens → R Bool (consume token) (consume token)
  expect {token : String} : token ∈ requiredTokens → R Unit (expect token) (expect token)
  consumeWord {word : String} : word ∈ connectives → R Bool (consumeWord word) (consumeWord word)
  consumeWords : R Bool (consumeWords "not" "in") (consumeWords "not" "in")
  identifier : R String identifier identifier
  skipArgumentName : R Unit skipArgumentName skipArgumentName
  lookupKey : R Value lookupKey lookupKey
  productOperator? : R (Option Operator) productOperator? productOperator?
  primary {inner inner' : Parser Expr} {rounds rounds' : Nat} : R Expr inner inner' →
    R (List Expr) (listUntil "]" inner rounds) (listUntil "]" inner' rounds') →
    R (List (Expr × Expr)) (listUntil "\x7d" (dictEntry inner) rounds) (listUntil "\x7d" (dictEntry inner') rounds') →
    R Expr (primary inner rounds) (primary inner' rounds')
  signed {inner inner' : Parser Expr} {rounds rounds' signs signs' : Nat} :
    R Expr (postfixed inner rounds) (postfixed inner' rounds') → signs ≤ signs' →
    R Expr (signed inner rounds signs) (signed inner' rounds' signs')
  sumStep {inner inner' : Parser Expr} {rounds rounds' : Nat} :
    R Expr (product inner rounds) (product inner' rounds') → ∀ left,
    R (Option Expr) (sumStep inner rounds left) (sumStep inner' rounds' left)

theorem Likeness.ite (R : Likeness) {c : Prop} [Decidable c] {p p' q q' : Parser α} (hp : R α p p') (hq : R α q q') :
    R α (if c then p else q) (if c then p' else q') := by
  split
  · exact hp
  · exact hq

namespace Likeness.Carries

variable {R : Likeness} (h : R.Carries)
include h

/-! ### Sequences -/

theorem choice {test : Parser Bool} {p p' q q' : Parser α} (ht : R Bool test test) (hp : R α p p') (hq : R α q q') :
    R α (do if ← test then p else q) (do if ← test then p' else q') :=
  h.bind ht fun _ => R.ite hp hq

theorem option {first second : Parser (Option β)} {f g : Option β → Parser α} (hp : R (Option β) first second)
    (hs : ∀ value, R α (f (some value)) (g (some value))) (hn : R α (f none) (g none)) :
    R α (first >>= f) (second >>= g) :=
  h.bind hp fun
    | some value => hs value
    | none => hn

/-- Behind a value nothing is left to read. -/
theorem map {p q : Parser β} (hp : R β p q) (f : β → α) :
    R α (do return f (← p)) (do return f (← q)) :=
  h.bind hp fun _ => h.pure _

theorem extendWhile {step step' : α → Parser (Option α)} (hs : ∀ value, R (Option α) (step value) (step' value))
    {rounds rounds' : Nat} (hr : rounds ≤ rounds') (value : α) :
    R α (extendWhile step rounds value) (extendWhile step' rounds' value) := by
  induction rounds generalizing rounds' value with
  | zero => exact h.exhausted _
  | succ rounds ih =>
    cases rounds' with
    | zero => exact absurd hr (Nat.not_succ_le_zero _)
    | succ rounds' => exact h.option (hs value) (ih (Nat.le_of_succ_le_succ hr)) (h.pure _)

section Lists

variable {item item' : Parser α} (hi : R α item item') {rounds rounds' : Nat} (hr : rounds ≤ rounds')
include hi hr

theorem listUntil {close : String} (possible : close ∈ possibleTokens) (required : close ∈ requiredTokens) :
    R (List α) (listUntil close item rounds) (listUntil close item' rounds') := by
  induction rounds generalizing rounds' with
  | zero => exact h.exhausted _
  | succ rounds ih =>
    cases rounds' with
    | zero => exact absurd hr (Nat.not_succ_le_zero _)
    | succ rounds' =>
      refine h.bind h.skipBlank fun _ => h.choice (h.consume possible) (h.pure _) ?_
      refine h.bind hi fun first => h.bind h.skipBlank fun _ => h.choice (h.consume (by decide)) ?_ ?_
      · exact h.map (ih (Nat.le_of_succ_le_succ hr)) _
      · exact h.bind (h.expect required) fun _ => h.pure _

theorem listOf : R (List α) (listOf item rounds) (listOf item' rounds') := by
  induction rounds generalizing rounds' with
  | zero => exact h.exhausted _
  | succ rounds ih =>
    cases rounds' with
    | zero => exact absurd hr (Nat.not_succ_le_zero _)
    | succ rounds' =>
      refine h.bind hi fun first => h.bind h.skipBlank fun _ => h.choice (h.consume (by decide)) ?_ (h.pure _)
      exact h.map (ih (Nat.le_of_succ_le_succ hr)) _

end Lists

/-! ### Levels -/

section Levels

variable {inner inner' : Parser Expr} (hi : R Expr inner inner') {rounds rounds' : Nat} (hr : rounds ≤ rounds')
include hi

theorem dictEntry : R (Expr × Expr) (dictEntry inner) (dictEntry inner') :=
  h.bind hi fun _ => h.bind h.skipBlank fun _ => h.bind (h.expect (by decide)) fun _ => h.map hi _

include hr

theorem callArguments : R (List Expr) (callArguments inner rounds) (callArguments inner' rounds') :=
  h.bind (h.expect (by decide)) fun _ =>
    h.listUntil (h.bind h.skipArgumentName fun _ => hi) hr (by decide) (by decide)

theorem optionalArguments : R (List Expr) (optionalArguments inner rounds) (optionalArguments inner' rounds') :=
  h.bind h.skipBlank fun _ => h.choice h.peek (h.callArguments hi hr) (h.pure _)

theorem test (target : Expr) : R Expr (test inner rounds target) (test inner' rounds' target) := by
  refine h.bind (h.consumeWord (by decide)) fun negated => h.bind h.identifier fun name => ?_
  exact R.ite (h.pure _) (R.ite (h.pure _) (h.map (h.optionalArguments hi hr) _))

theorem postfixStep (e : Expr) : R (Option Expr) (postfixStep inner rounds e) (postfixStep inner' rounds' e) := by
  refine h.bind h.skipBlank fun _ => h.choice (h.consume (by decide)) (h.map h.lookupKey _) ?_
  refine h.choice (h.consume (by decide)) ?bracket (h.choice h.peek (h.map (h.callArguments hi hr) _) ?_)
  case bracket =>
    exact h.bind hi fun _ => h.bind h.skipBlank fun _ => h.bind (h.expect (by decide)) fun _ => h.pure _
  refine h.choice (h.consume (by decide)) ?filter
    (h.choice (h.consumeWord (by decide)) (h.map (h.test hi hr e) _) (h.pure _))
  case filter => exact h.bind h.identifier fun _ => h.map (h.optionalArguments hi hr) _

theorem postfixed : R Expr (postfixed inner rounds) (postfixed inner' rounds') := by
  have operand := h.primary hi (h.listUntil hi hr (by decide) (by decide))
    (h.listUntil (h.dictEntry hi) hr (by decide) (by decide))
  exact h.bind operand (h.extendWhile (h.postfixStep hi hr) hr)

theorem operand {signs signs' : Nat} (hs : signs ≤ signs') :
    R Expr (Parser.signed inner rounds signs) (Parser.signed inner' rounds' signs') :=
  h.signed (h.postfixed hi hr) hs

theorem productStep (left : Expr) :
    R (Option Expr) (productStep inner rounds left) (productStep inner' rounds' left) :=
  h.option h.productOperator? (fun _ => h.map (h.operand hi hr hr) _) (h.pure _)

theorem product : R Expr (product inner rounds) (product inner' rounds') :=
  h.bind (h.operand hi hr hr) (h.extendWhile (h.productStep hi hr) hr)

theorem sum : R Expr (sum inner rounds) (sum inner' rounds') :=
  h.bind (h.product hi hr) (h.extendWhile (h.sumStep (h.product hi hr)) hr)

theorem joinStep (left : Expr) : R (Option Expr) (joinStep inner rounds left) (joinStep inner' rounds' left) :=
  h.bind h.skipBlank fun _ => h.choice (h.consume (by decide)) (h.map (h.sum hi hr) _) (h.pure _)

theorem join : R Expr (join inner rounds) (join inner' rounds') :=
  h.bind (h.sum hi hr) (h.extendWhile (h.joinStep hi hr) hr)

omit hi hr in
theorem comparison? : R (Option Comparison) comparison? comparison? := by
  refine h.bind h.skipBlank fun _ => h.choice (h.consume (by decide)) (h.pure _) ?_
  refine h.choice (h.consume (by decide)) (h.pure _) (h.choice (h.consume (by decide)) (h.pure _) ?_)
  refine h.choice (h.consume (by decide)) (h.pure _) (h.choice (h.consume (by decide)) (h.pure _) ?_)
  refine h.choice (h.consume (by decide)) (h.pure _) (h.choice (h.consumeWord (by decide)) (h.pure _) ?_)
  exact h.choice h.consumeWords (h.pure _) (h.pure _)

theorem comparisonStep (left : Expr) :
    R (Option Expr) (comparisonStep inner rounds left) (comparisonStep inner' rounds' left) :=
  h.option h.comparison? (fun _ => h.map (h.join hi hr) _) (h.pure _)

theorem compared : R Expr (compared inner rounds) (compared inner' rounds') :=
  h.bind (h.join hi hr) (h.extendWhile (h.comparisonStep hi hr) hr)

theorem negation {words words' : Nat} (hw : words ≤ words') :
    R Expr (negation inner rounds words) (negation inner' rounds' words') := by
  induction words generalizing words' with
  | zero => exact h.exhausted _
  | succ words ih =>
    cases words' with
    | zero => exact absurd hw (Nat.not_succ_le_zero _)
    | succ words' =>
      exact h.choice (h.consumeWord (by decide)) (h.map (ih (Nat.le_of_succ_le_succ hw)) _) (h.compared hi hr)

theorem conjunctionStep (left : Expr) :
    R (Option Expr) (conjunctionStep inner rounds left) (conjunctionStep inner' rounds' left) :=
  h.choice (h.consumeWord (by decide)) (h.map (h.negation hi hr hr) _) (h.pure _)

theorem conjunction : R Expr (conjunction inner rounds) (conjunction inner' rounds') :=
  h.bind (h.negation hi hr hr) (h.extendWhile (h.conjunctionStep hi hr) hr)

theorem disjunctionStep (left : Expr) :
    R (Option Expr) (disjunctionStep inner rounds left) (disjunctionStep inner' rounds' left) :=
  h.choice (h.consumeWord (by decide)) (h.map (h.conjunction hi hr) _) (h.pure _)

theorem disjunction : R Expr (disjunction inner rounds) (disjunction inner' rounds') :=
  h.bind (h.conjunction hi hr) (h.extendWhile (h.disjunctionStep hi hr) hr)

theorem conditional : R Expr (conditional inner rounds) (conditional inner' rounds') := by
  refine h.bind (h.disjunction hi hr) fun value => h.choice (h.consumeWord (by decide)) ?_ (h.pure _)
  refine h.bind (h.disjunction hi hr) fun condition => h.choice (h.consumeWord (by decide)) (h.map hi _) (h.pure _)

end Levels

theorem expression {bound bound' : Nat} (hb : bound ≤ bound') : R Expr (expression bound) (expression bound') := by
  induction bound generalizing bound' with
  | zero => exact h.exhausted _
  | succ bound ih =>
    cases bound' with
    | zero => exact absurd hb (Nat.not_succ_le_zero _)
    | succ bound' => exact h.conditional (ih (Nat.le_of_succ_le_succ hb)) hb

end Likeness.Carries

end Folio.Template.Parser
