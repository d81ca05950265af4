import Folio.Template.Parser.Basic
import Folio.Template.Syntax

/-! Expressions, from the loosest operator to the tightest: inline `if`, `or`, `and`, `not`,
comparisons, `~`, `+ -`, `* / // % **`, signs, and lookups, calls, filters and tests. Each level is
given the parser of a whole expression, `inner`, for what stands in brackets, and a bound above the
length of the text that is left. -/
namespace Folio.Template.Parser

variable (inner : Parser Expr) (bound : Nat)

/-! ### Literals -/

/-- The content of a string up to its closing quote, and the text after it. A backslash keeps the next
character, or makes it a control character. -/
def stringBody (quote : Char) : List Char → Option (List Char × List Char)
  | [] => none
  | c :: rest =>
    if c = quote then some ([], rest)
    else if c = '\\' then
      match rest with
      | [] => none
      | escaped :: rest =>
        let meant := match escaped with
          | 'n' => '\n'
          | 't' => '\t'
          | 'r' => '\r'
          | other => other
        (stringBody quote rest).map (fun (body, after) => (meant :: body, after))
    else (stringBody quote rest).map (fun (body, after) => (c :: body, after))

def stringLiteral (quote : Char) : Parser String := do
  let text ← rest
  match stringBody quote (text.drop 1) with
  | some (body, after) => goto (front text after) after; return String.ofList body
  | none => goto text []; fail (.unexpectedEnd quote.toString)

/-- A number: an integer, or a float if a point and a digit follow. -/
def number : Parser Value := do
  let text ← rest
  let whole := text.takeWhile Char.isDigit
  match text.dropWhile Char.isDigit with
  | '.' :: d :: after =>
    if d.isDigit then
      let fraction := (d :: after).takeWhile Char.isDigit
      goto (whole ++ '.' :: fraction) ((d :: after).dropWhile Char.isDigit)
      return .float (Decimal.floatOfDigits whole fraction)
    else integer whole ('.' :: d :: after)
  | after => integer whole after
where
  integer (whole after : List Char) : Parser Value := do
    goto whole after
    let n := Decimal.natOfDigits whole
    if n < 0x8000000000000000 then return .int (Int64.ofNat n)
    else fail (.invalidNumber (String.ofList whole))

/-! ### Arguments -/

/-- Passes over the name of a keyword argument and its equals sign. -/
def skipArgumentName : Parser Unit := do
  let text ← rest
  match identifier? text with
  | some (_, after) =>
    match after.dropWhile Text.isBlank with
    | '=' :: '=' :: _ => return
    | '=' :: value => goto (front text value) value
    | _ => return
  | none => return

/-- Arguments in parentheses. Of keyword arguments only the values are kept. -/
def callArguments : Parser (List Expr) := do
  expect "("
  listUntil ")" (do skipArgumentName; inner) bound

/-- Arguments that may be left out together with their parentheses. -/
def optionalArguments : Parser (List Expr) := do
  skipBlank
  if ← peek "(" then callArguments inner bound else return []

/-! ### Levels -/

def dictEntry : Parser (Expr × Expr) := do
  let key ← inner
  skipBlank
  expect ":"
  return (key, ← inner)

/-- A name, unless it is the word for a constant. -/
def nameOrConstant (name : String) : Expr :=
  match name with
  | "true" | "True" => .literal (.bool true)
  | "false" | "False" => .literal (.bool false)
  | "none" | "None" | "null" => .literal .null
  | _ => .var name

def primary : Parser Expr := do
  skipBlank
  match ← rest with
  | [] => fail (.unexpectedEnd "expression")
  | '(' :: after => do
    goto ['('] after
    let e ← inner
    skipBlank
    expect ")"
    return e
  | '[' :: after => do
    goto ['['] after
    return .list (← listUntil "]" inner bound)
  | '{' :: after => do
    goto ['{'] after
    return .dict (← listUntil "\x7d" (dictEntry inner) bound)
  | c :: after =>
    if c = '"' || c = '\'' then return .literal (.string (← stringLiteral c))
    else if c.isDigit then return .literal (← number)
    else if isIdentStart c then return nameOrConstant (← identifier)
    else fail (.expected ("expression, found '" ++ String.ofList (snippet 10 (c :: after)) ++ "'"))

/-- A test after `is`. The tests for being defined are expressions of their own. -/
def test (target : Expr) : Parser Expr := do
  let negated ← consumeWord "not"
  let name ← identifier
  if name = "defined" then return if negated then .not (.isDefined target) else .isDefined target
  else if name = "undefined" then
    return if negated then .isDefined target else .not (.isDefined target)
  else return .test name target (← optionalArguments inner bound) negated

/-- The key after a point: an index or a name. -/
def lookupKey : Parser Value := do
  match ← rest with
  | c :: _ => if c.isDigit then number else return .string (← identifier)
  | [] => return .string (← identifier)

/-- One lookup, call, filter or test after an expression. -/
def postfixStep (e : Expr) : Parser (Option Expr) := do
  skipBlank
  if ← consume "." then return some (.lookup e (.literal (← lookupKey)))
  else if ← consume "[" then
    let key ← inner
    skipBlank
    expect "]"
    return some (.lookup e key)
  else if ← peek "(" then return some (.call e (← callArguments inner bound))
  else if ← consume "|" then
    let name ← identifier
    return some (.filter name e (← optionalArguments inner bound))
  else if ← consumeWord "is" then return some (← test inner bound e)
  else return none

def postfixed : Parser Expr := do
  extendWhile (postfixStep inner bound) bound (← primary inner bound)

/-- Signs. A plus changes nothing. -/
def signed : Nat → Parser Expr
  | 0 => exhausted
  | n + 1 => do
    skipBlank
    if ← consume "-" then return .neg (← signed n)
    else if ← consume "+" then signed n
    else postfixed inner bound

/-- An operator of the products. A percent sign before a brace closes the tag. -/
def productOperator? : Parser (Option Operator) := do
  skipBlank
  if ← consume "**" then return some .pow
  else if ← consume "*" then return some .mul
  else if ← consume "//" then return some .floorDiv
  else if ← consume "/" then return some .div
  else if ← peek "%\x7d" then return none
  else if ← consume "%" then return some .rem
  else return none

def productStep (left : Expr) : Parser (Option Expr) := do
  match ← productOperator? with
  | some op => return some (.binary op left (← signed inner bound bound))
  | none => return none

def product : Parser Expr := do
  extendWhile (productStep inner bound) bound (← signed inner bound bound)

/-- A dash that belongs to a closing delimiter. -/
def atTrimmedClose : Parser Bool := do
  let text ← rest
  return startsWith "-\x7d\x7d" text || startsWith "-%\x7d" text || startsWith "-#\x7d" text

def sumStep (left : Expr) : Parser (Option Expr) := do
  skipBlank
  if ← consume "+" then return some (.binary .add left (← product inner bound))
  else if ← atTrimmedClose then return none
  else if ← consume "-" then return some (.binary .sub left (← product inner bound))
  else return none

def sum : Parser Expr := do
  extendWhile (sumStep inner bound) bound (← product inner bound)

def joinStep (left : Expr) : Parser (Option Expr) := do
  skipBlank
  if ← consume "~" then return some (.binary .concat left (← sum inner bound)) else return none

def join : Parser Expr := do
  extendWhile (joinStep inner bound) bound (← sum inner bound)

/-- Takes two keywords, or neither. -/
def consumeWords (first second : String) : Parser Bool := do
  let before ← get
  if ← consumeWord first then
    if ← consumeWord second then return true
    set before
    return false
  else return false

def comparison? : Parser (Option Comparison) := do
  skipBlank
  if ← consume "==" then return some .eq
  else if ← consume "!=" then return some .ne
  else if ← consume "<=" then return some .le
  else if ← consume ">=" then return some .ge
  else if ← consume "<" then return some .lt
  else if ← consume ">" then return some .gt
  else if ← consumeWord "in" then return some .isIn
  else if ← consumeWords "not" "in" then return some .notIn
  else return none

def comparisonStep (left : Expr) : Parser (Option Expr) := do
  match ← comparison? with
  | some op => return some (.compare op left (← join inner bound))
  | none => return none

def compared : Parser Expr := do
  extendWhile (comparisonStep inner bound) bound (← join inner bound)

def negation : Nat → Parser Expr
  | 0 => exhausted
  | n + 1 => do
    if ← consumeWord "not" then return .not (← negation n) else compared inner bound

def conjunctionStep (left : Expr) : Parser (Option Expr) := do
  if ← consumeWord "and" then return some (.and left (← negation inner bound bound))
  else return none

def conjunction : Parser Expr := do
  extendWhile (conjunctionStep inner bound) bound (← negation inner bound bound)

def disjunctionStep (left : Expr) : Parser (Option Expr) := do
  if ← consumeWord "or" then return some (.or left (← conjunction inner bound)) else return none

def disjunction : Parser Expr := do
  extendWhile (disjunctionStep inner bound) bound (← conjunction inner bound)

def conditional : Parser Expr := do
  let value ← disjunction inner bound
  if ← consumeWord "if" then
    let condition ← disjunction inner bound
    if ← consumeWord "else" then return .inlineIf value condition (some (← inner))
    else return .inlineIf value condition none
  else return value

/-- A whole expression in a text of less than `bound` characters. Brackets and `else` take a character
before what they hold, so that the bound falls with the nesting. -/
def expression : Nat → Parser Expr
  | 0 => exhausted
  | bound + 1 => conditional (expression bound) (bound + 1)

end Folio.Template.Parser
