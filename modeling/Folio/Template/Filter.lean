import Folio.Template.RenderError
import Folio.Text.Case
import Folio.Text.Space
import Folio.Value.Equality

/-! The filters and the tests of templates. -/
namespace Folio

/-- The names of the filter that replaces an undefined value. -/
def defaultFilters : List String := ["default", "d"]

/-- The argument that a filter or test cannot do without. -/
def argument (name : String) (args : List Value) (index : Nat) : Except RenderError Value :=
  (args[index]?).elim (.error (.missingArgument name (index + 1))) .ok

namespace Value

/-- Works on the text of a value. -/
def mapText (f : List Char → List Char) (value : Value) : Value :=
  .string (String.ofList (f value.text.toList))

def first : Value → Value
  | .seq items => items.head?.getD .undefined
  | .string s => s.toList.head?.elim .undefined (fun c => .string c.toString)
  | _ => .undefined

def last : Value → Value
  | .seq items => items.getLast?.getD .undefined
  | .string s => s.toList.getLast?.elim .undefined (fun c => .string c.toString)
  | _ => .undefined

/-- The texts of the items with a separator between them. -/
def join (separator : String) : Value → String
  | .seq items => separator.intercalate (texts items)
  | other => other.text

/-- The fallback in place of an undefined value, or of any value that counts as false if the second
argument asks for it. -/
def orDefault (value : Value) (args : List Value) : Value :=
  if value.isUndefined || ((args[1]?).any isTruthy && !value.isTruthy) then
    args.head?.getD (.string "")
  else value

/-- The value that a filter makes of a value and its arguments. -/
def filter (name : String) (value : Value) (args : List Value) (locale : Locale) :
    Except RenderError Value :=
  match name with
  | "default" | "d" => .ok (value.orDefault args)
  | "format" =>
    let pattern := (args.head?.bind string?).elim Date.defaultPattern String.toList
    .ok (.string (value.formatDate pattern locale))
  | "upper" => .ok (value.mapText Text.upper)
  | "lower" => .ok (value.mapText Text.lower)
  | "capitalize" => .ok (value.mapText Text.capitalize)
  | "title" => .ok (value.mapText Text.title)
  | "trim" => .ok (value.mapText Text.trim)
  | "length" | "count" => .ok (ofNat (value.length?.getD 0))
  | "first" => .ok value.first
  | "last" => .ok value.last
  | "join" => .ok (.string (value.join (args.head?.elim "" text)))
  | "replace" => do
    let old ← argument name args 0
    let new ← argument name args 1
    return value.mapText (Text.replace old.text.toList new.text.toList)
  | "string" => .ok (.string value.text)
  | "safe" => .ok value
  | other => .error (.unknownFilter other)

/-- An integer is a multiple of another. Zero has no multiples here. -/
def isMultiple : Value → Value → Except RenderError Bool
  | .int n, .int d =>
    if d = 0 then .ok false
    else if n = Int64.minValue ∧ d = -1 then .error .remainderOverflow
    else .ok (n.toInt % d.toInt = 0)
  | _, _ => .ok false

/-- The answer of a test on a value and its arguments. -/
def test (name : String) (value : Value) (args : List Value) : Except RenderError Bool :=
  match name with
  | "defined" => .ok (!value.isUndefined)
  | "undefined" => .ok value.isUndefined
  | "none" | "null" => .ok (value matches .null)
  | "string" => .ok (value matches .string _)
  | "number" => .ok (value matches .int _ | .float _)
  | "mapping" => .ok (value matches .map _)
  | "sequence" | "iterable" => .ok (value matches .seq _ | .string _)
  | "true" => .ok (value matches .bool true)
  | "false" => .ok (value matches .bool false)
  | "even" => .ok (match value with | .int i => i.toInt % 2 = 0 | _ => false)
  | "odd" => .ok (match value with | .int i => i.toInt % 2 ≠ 0 | _ => false)
  | "divisibleby" => (argument name args 0).bind value.isMultiple
  | "eq" | "equalto" | "sameas" => (argument name args 0).map value.equal
  | other => .error (.unknownTest other)

end Value

end Folio
