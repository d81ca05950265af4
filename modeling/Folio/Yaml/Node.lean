import Folio.Yaml.Plain
import Folio.Yaml.Token

/-! The nodes of a document, read from its tokens, and the values they stand for. A part that is left
out, such as the value after a colon at the end of a line, is an empty plain scalar. -/
namespace Folio.Yaml

inductive Node where
  | scalar (plain : Bool) (text : List Char)
  | sequence (items : List Node)
  | mapping (entries : List (Node × Node))
  deriving Inhabited

namespace Node

/-- What stands for a part that is left out. -/
def absent : Node :=
  .scalar true []

/-- What is around a node. -/
inductive Place where
  /-- Within brackets. -/
  | flow
  /-- Within a block collection. -/
  | block
  /-- In a block mapping, where the items of a sequence need no deeper indentation. -/
  | field
  deriving DecidableEq

/-! ### Reading

Every function takes a bound on the number of its steps, and gives what it read and the tokens after
it. -/

mutual

def read : Nat → Place → List Token → Option (Node × List Token)
  | 0, _, _ => none
  | n + 1, place, tokens =>
    match tokens with
    | .scalar plain text :: rest => some (.scalar plain text, rest)
    | .openBracket :: rest => (readFlowItems n true rest).map (fun (items, rest) => (.sequence items, rest))
    | .openBrace :: rest => (readFlowFields n true rest).map (fun (fields, rest) => (.mapping fields, rest))
    | .entry :: _ =>
      if place = .field then
        (readLooseItems n tokens).map (fun (items, rest) => (.sequence items, rest))
      else none
    | .blockSequence :: rest =>
      if place = .flow then none
      else (readItems n rest).map (fun (items, rest) => (.sequence items, rest))
    | .blockMapping :: rest =>
      if place = .flow then none
      else (readFields n rest).map (fun (fields, rest) => (.mapping fields, rest))
    | _ => none

/-- A node, unless one of the given tokens comes first. -/
def readUnless : Nat → List Token → Place → List Token → Option (Node × List Token)
  | 0, _, _, _ => none
  | n + 1, stops, place, tokens =>
    if tokens.head?.any stops.contains then some (absent, tokens) else read n place tokens

/-- The items of a block sequence and its end. -/
def readItems : Nat → List Token → Option (List Node × List Token)
  | 0, _ => none
  | n + 1, tokens =>
    match tokens with
    | .entry :: rest => do
      let (item, rest) ← readUnless n [.entry, .blockEnd] .block rest
      let (items, rest) ← readItems n rest
      return (item :: items, rest)
    | .blockEnd :: rest => some ([], rest)
    | _ => none

/-- The items of a sequence that ends with anything that is no item. -/
def readLooseItems : Nat → List Token → Option (List Node × List Token)
  | 0, _ => none
  | n + 1, tokens =>
    match tokens with
    | .entry :: rest => do
      let (item, rest) ← readUnless n [.entry, .key, .value, .blockEnd] .block rest
      let (items, rest) ← readLooseItems n rest
      return (item :: items, rest)
    | _ => some ([], tokens)

/-- The value after a key. -/
def readValue : Nat → List Token → Place → List Token → Option (Node × List Token)
  | 0, _, _, _ => none
  | n + 1, stops, place, tokens =>
    match tokens with
    | .value :: rest => readUnless n stops place rest
    | _ => some (absent, tokens)

/-- The fields of a block mapping and its end. -/
def readFields : Nat → List Token → Option (List (Node × Node) × List Token)
  | 0, _ => none
  | n + 1, tokens =>
    match tokens with
    | .key :: rest => do
      let stops : List Token := [.key, .value, .blockEnd]
      let (key, rest) ← readUnless n stops .field rest
      let (value, rest) ← readValue n stops .field rest
      let (fields, rest) ← readFields n rest
      return ((key, value) :: fields, rest)
    | .blockEnd :: rest => some ([], rest)
    | _ => none

/-- The items within square brackets and the closing one. An item may be a mapping of one field without
braces. All items but the first one come after a comma, and a comma may stand at the end. -/
def readFlowItems : Nat → (first : Bool) → List Token → Option (List Node × List Token)
  | 0, _, _ => none
  | n + 1, first, tokens =>
    match tokens, first with
    | .closeBracket :: rest, _ => some ([], rest)
    | .comma :: .closeBracket :: rest, false => some ([], rest)
    | .comma :: rest, false => readFlowItem n rest
    | tokens, true => readFlowItem n tokens
    | _, false => none

/-- The key of a field without braces after its mark. A key that is left out takes the token behind it
away. -/
def readFlowKey : Nat → List Token → Option (Node × List Token)
  | 0, _ => none
  | n + 1, tokens =>
    match tokens with
    | .value :: rest | .comma :: rest | .closeBracket :: rest => some (absent, rest)
    | tokens => read n .flow tokens

/-- An item within square brackets, and the ones after it. -/
def readFlowItem : Nat → List Token → Option (List Node × List Token)
  | 0, _ => none
  | n + 1, tokens =>
    match tokens with
    | .key :: rest => do
      let (key, rest) ← readFlowKey n rest
      let (value, rest) ← readValue n [.comma, .closeBracket] .flow rest
      let (items, rest) ← readFlowItems n false rest
      return (.mapping [(key, value)] :: items, rest)
    | tokens => do
      let (item, rest) ← read n .flow tokens
      let (items, rest) ← readFlowItems n false rest
      return (item :: items, rest)

/-- The fields within braces and the closing one. A key may stand without a value. -/
def readFlowFields : Nat → (first : Bool) → List Token → Option (List (Node × Node) × List Token)
  | 0, _, _ => none
  | n + 1, first, tokens =>
    match tokens, first with
    | .closeBrace :: rest, _ => some ([], rest)
    | .comma :: .closeBrace :: rest, false => some ([], rest)
    | .comma :: rest, false => readFlowField n rest
    | tokens, true => readFlowField n tokens
    | _, false => none

/-- A field within braces, and the ones after it. -/
def readFlowField : Nat → List Token → Option (List (Node × Node) × List Token)
  | 0, _ => none
  | n + 1, tokens =>
    match tokens with
    | .key :: rest => do
      let (key, rest) ← readUnless n [.value, .comma, .closeBrace] .flow rest
      let (value, rest) ← readValue n [.comma, .closeBrace] .flow rest
      let (fields, rest) ← readFlowFields n false rest
      return ((key, value) :: fields, rest)
    | tokens => do
      let (key, rest) ← read n .flow tokens
      let (fields, rest) ← readFlowFields n false rest
      return ((key, absent) :: fields, rest)

end

/-- The node at the start of the tokens. Fewer than four steps follow one another without taking a
token. -/
def ofTokens? (tokens : List Token) : Option (Node × List Token) :=
  read (4 * tokens.length + 4) .block tokens

/-! ### Values -/

/-- The text of a key, which has to be a scalar. -/
def key? : Node → Option String
  | .scalar _ text => some (String.ofList text)
  | _ => none

mutual

/-- The value of a node whose collections are nested no deeper than a limit. -/
def value? : Nat → Node → Option Value
  | _, .scalar true text => plain? text
  | _, .scalar false text => some (.string (String.ofList text))
  | 0, _ => none
  | limit + 1, .sequence items => (items? limit items).map .seq
  | limit + 1, .mapping entries => (fields? limit entries).map .ofFields

def items? (limit : Nat) : List Node → Option (List Value)
  | [] => some []
  | item :: items => do
    return (← item.value? limit) :: (← items? limit items)

def fields? (limit : Nat) : List (Node × Node) → Option (List (String × Value))
  | [] => some []
  | (key, value) :: entries => do
    return (← key.key?, ← value.value? limit) :: (← fields? limit entries)

end

end Node

end Folio.Yaml
