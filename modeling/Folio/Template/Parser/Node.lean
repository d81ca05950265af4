import Folio.Template.Parser.Expression

/-! Text and tags. A body is read up to the tag that ends it, which is left for the tag that opened the
body; `parse` reads a whole template. -/
namespace Folio.Template

/-- The text stands at an opening delimiter. -/
def atOpening : List Char → Bool
  | '{' :: c :: _ => c = '{' || c = '%' || c = '#'
  | _ => false

/-- The text stands at an opening delimiter with a dash. -/
def atTrimmedOpening : List Char → Bool
  | '{' :: c :: '-' :: _ => c = '{' || c = '%' || c = '#'
  | _ => false

/-- Splits a text before its first opening delimiter. -/
def splitAtOpening : List Char → List Char × List Char
  | [] => ([], [])
  | c :: rest =>
    if atOpening (c :: rest) then ([], c :: rest)
    else
      let (content, after) := splitAtOpening rest
      (c :: content, after)

/-- What follows the end of a comment, and whether the comment closes with a dash. -/
def afterComment : List Char → Option (Bool × List Char)
  | '-' :: '#' :: '}' :: rest => some (true, rest)
  | '#' :: '}' :: rest => some (false, rest)
  | _ :: rest => afterComment rest
  | [] => none

/-- Splits a text before the tag that ends a raw block. -/
def splitAtEndRaw : List Char → Option (List Char × List Char)
  | [] => none
  | c :: rest =>
    if tagKeyword? (c :: rest) = some "endraw" then some ([], c :: rest)
    else (splitAtEndRaw rest).map (fun (content, after) => (c :: content, after))

namespace Parser

/-- Trims a text between two tags on the sides on which the tags have dashes. -/
def trimmed (content : List Char) : Parser String := do
  let cursor ← get
  set { cursor with trimNext := false }
  let content := if cursor.trimNext then Text.trimStart content else content
  return String.ofList (if atTrimmedOpening cursor.rest then Text.trimEnd content else content)

/-- The text up to the next tag. -/
def text : Parser String := do
  let (content, after) := splitAtOpening (← rest)
  goto content after
  trimmed content

def comment : Parser Unit := do
  expect "\x7b#"
  let text ← rest
  match afterComment text with
  | some (trim, after) =>
    goto (front text after) after
    if trim then modify (fun cursor => { cursor with trimNext := true })
  | none => goto text []; fail (.unexpectedEnd "#\x7d")

/-- Opens a tag and takes its keyword. -/
def openTag : Parser String := do
  expect "\x7b%"
  let _ ← consume "-"
  identifier

/-- The tag that ends a body. -/
def endTag (keyword : String) : Parser Unit := do
  expect "\x7b%"
  let _ ← consume "-"
  expectWord keyword
  expectClose "%\x7d"

/-- The end of the text, where only a template itself may end. The last of the tags that could end the
body is the one that is missing. -/
def endOfText (ends : List String) : Parser (Option String) :=
  match ends.getLast? with
  | some closing => fail (.unexpectedEnd ("\x7b% " ++ closing ++ " %\x7d"))
  | none => return none

/-! ### Tags -/

/-- A parser of bodies: given the keywords that can end the body, its nodes and the one that did. -/
abbrev BodyParser := List String → Parser (List Node × Option String)

variable (body : BodyParser) (inner : Parser Expr) (bound : Nat)

/-- A body with one possible end, and its end tag. -/
def bodyUntil (closing : String) : Parser (List Node) := do
  let (nodes, _) ← body [closing]
  endTag closing
  return nodes

/-- The arms of an `if` from a condition on. Every further arm takes a tag from the text. -/
def arms : Nat → Expr → Parser (List (Expr × List Node) × Option (List Node))
  | 0, _ => exhausted
  | n + 1, condition => do
    let (nodes, closing) ← body ["elif", "elseif", "else", "endif"]
    if closing = some "elif" || closing = some "elseif" then
      let _ ← openTag
      let next ← inner
      expectClose "%\x7d"
      let (more, otherwise) ← arms n next
      return ((condition, nodes) :: more, otherwise)
    else if closing = some "else" then
      let _ ← openTag
      expectClose "%\x7d"
      return ([(condition, nodes)], some (← bodyUntil body "endif"))
    else
      endTag "endif"
      return ([(condition, nodes)], none)

def branchTag : Parser Node := do
  let condition ← inner
  expectClose "%\x7d"
  let (all, otherwise) ← arms body inner bound condition
  return .branch all otherwise

def loopTag : Parser Node := do
  let targets ← listOf identifier bound
  expectWord "in"
  let items ← disjunction inner bound
  expectClose "%\x7d"
  let (nodes, closing) ← body ["else", "endfor"]
  if closing = some "else" then
    let _ ← openTag
    expectClose "%\x7d"
    return .loop targets items nodes (some (← bodyUntil body "endfor"))
  else
    endTag "endfor"
    return .loop targets items nodes none

/-- Whether the template sees the variables around the tag, which it does unless told otherwise. -/
def contextModifier : Parser Bool := do
  if ← consumeWord "without" then
    expectWord "context"
    return false
  else if ← consumeWord "with" then
    expectWord "context"
    return true
  else return true

def inclusionTag : Parser Node := do
  let name ← inner
  let ignoreMissing ← consumeWord "ignore"
  if ignoreMissing then expectWord "missing"
  let withContext ← contextModifier
  expectClose "%\x7d"
  return .inclusion name ignoreMissing withContext

def assignTag : Parser Node := do
  let name ← identifier
  skipBlank
  expect "="
  let value ← inner
  expectClose "%\x7d"
  return .assign name value

/-- A block; its end tag may repeat its name. -/
def blockTag : Parser Node := do
  let name ← identifier
  expectClose "%\x7d"
  let (nodes, _) ← body ["endblock"]
  expect "\x7b%"
  let _ ← consume "-"
  expectWord "endblock"
  skipBlank
  if (← rest).head?.any isIdentStart then
    let closing ← identifier
    if closing ≠ name then fail (.unexpectedToken ("endblock for '" ++ name ++ "'") closing)
  expectClose "%\x7d"
  return .block name nodes

def extendTag : Parser Node := do
  let parent ← inner
  expectClose "%\x7d"
  return .extend parent

/-- Everything up to the end tag, as it stands. -/
def rawTag : Parser Node := do
  expectClose "%\x7d"
  let text ← rest
  match splitAtEndRaw text with
  | some (content, after) =>
    goto content after
    let content ← trimmed content
    endTag "endraw"
    return .text content
  | none => goto text []; fail (.unexpectedEnd "\x7b% endraw %\x7d")

def param : Parser Param := do
  let name ← identifier
  skipBlank
  match ← rest with
  | '=' :: '=' :: _ => return ⟨name, none⟩
  | '=' :: after => pass "=" after; return ⟨name, some (← inner)⟩
  | _ => return ⟨name, none⟩

def params : Parser (List Param) := do
  expect "("
  listUntil ")" (param inner) bound

def defineTag : Parser Node := do
  let name ← identifier
  skipBlank
  let params ← params inner bound
  expectClose "%\x7d"
  return .define name params (← bodyUntil body "endmacro")

/-- Parameters that may be left out together with their parentheses. -/
def optionalParams : Parser (List Param) := do
  skipBlank
  if ← peek "(" then params inner bound else return []

def callTag : Parser Node := do
  let params ← optionalParams inner bound
  let call ← inner
  expectClose "%\x7d"
  return .callBlock params call (← bodyUntil body "endcall")

def filterTag : Parser Node := do
  let name ← identifier
  let args ← optionalArguments inner bound
  expectClose "%\x7d"
  return .filterBlock name args (← bodyUntil body "endfilter")

def importTag : Parser Node := do
  let template ← inner
  expectWord "as"
  let name ← identifier
  let _ ← contextModifier
  expectClose "%\x7d"
  return .importAs template name

/-- A name to import, and the name to know it by. -/
def importedName : Parser (String × String) := do
  let name ← identifier
  if ← consumeWord "as" then return (name, ← identifier) else return (name, name)

def importFromTag : Parser Node := do
  let template ← inner
  expectWord "import"
  let names ← listOf importedName bound
  let _ ← contextModifier
  expectClose "%\x7d"
  return .importFrom template names

/-- A tag of any kind. An unknown one is reported where it opens. -/
def tag : Parser Node := do
  let opening ← get
  let keyword ← openTag
  match keyword with
  | "if" => branchTag body inner bound
  | "for" => loopTag body inner bound
  | "include" => inclusionTag inner
  | "set" => assignTag inner
  | "block" => blockTag body
  | "extends" => extendTag inner
  | "raw" => rawTag
  | "macro" => defineTag body inner bound
  | "call" => callTag body inner bound
  | "filter" => filterTag body inner bound
  | "import" => importTag inner
  | "from" => importFromTag inner bound
  | _ => set opening; fail (.unknownTag keyword)

def outputTag : Parser Node := do
  expect "\x7b\x7b"
  let _ ← consume "-"
  let e ← inner
  expectClose "\x7d\x7d"
  return .output e

/-- The node of the markup at the start of the text. A comment has none. -/
def markup : Parser (Option Node) := do
  if ← peek "\x7b#" then comment; return none
  else if ← peek "\x7b\x7b" then return some (← outputTag inner)
  else return some (← tag body inner bound)

/-! ### Bodies -/

/-- The nodes of a body in a text of less than `bound` characters, up to a tag that ends it. Markup takes
characters before what it holds and before what follows it, so that the bound falls. -/
def nodes : Nat → BodyParser
  | 0, _ => exhausted
  | bound + 1, ends => do
    let content ← text
    let before := if content.isEmpty then [] else [Node.text content]
    if ← atEnd then return (before, ← endOfText ends)
    match (tagKeyword? (← rest)).filter (· ∈ ends) with
    | some keyword => return (before, some keyword)
    | none =>
      let node ← markup (nodes bound) (expression (bound + 1)) (bound + 1)
      let (more, closing) ← nodes bound ends
      return (before ++ node.toList ++ more, closing)

end Parser

/-- Reads a template. -/
def parse (source : String) : Except ParseError (List Node) :=
  match Parser.nodes (source.toList.length + 1) [] ⟨source.toList, false⟩ with
  | .ok ((nodes, _), _) => .ok nodes
  | .error fault => .error fault.locate

end Folio.Template
