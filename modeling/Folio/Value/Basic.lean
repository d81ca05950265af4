import Folio.Calendar.Pattern
import Folio.Fields

/-! The values that documents carry and templates compute: their text, their truth, their parts, and
the reading of dates among them. -/
namespace Folio

/-- A value of a template. `undefined` stands for the lack of a value, while `null` is one. The
fields of a map are in ascending order of their keys. -/
inductive Value where
  | undefined
  | null
  | bool (b : Bool)
  | int (i : Int64)
  | float (x : Float)
  | string (s : String)
  | date (d : Date)
  | seq (items : List Value)
  | map (fields : List (String × Value))
  deriving Inhabited

namespace Value

def isUndefined : Value → Bool
  | .undefined => true
  | _ => false

/-- Nothing, zero and whatever is empty count as false. -/
def isTruthy : Value → Bool
  | .undefined | .null => false
  | .bool b => b
  | .int i => i ≠ 0
  | .float x => x != 0
  | .string s => !s.isEmpty
  | .date _ => true
  | .seq items => !items.isEmpty
  | .map fields => !fields.isEmpty

/-- The name of the value's kind. -/
def kind : Value → String
  | .undefined => "undefined"
  | .null => "none"
  | .bool _ => "boolean"
  | .int _ => "integer"
  | .float _ => "float"
  | .string _ => "string"
  | .date _ => "date"
  | .seq _ => "sequence"
  | .map _ => "map"

def string? : Value → Option String
  | .string s => some s
  | _ => none

/-- Numbers as doubles; truth values are one and zero. -/
def float? : Value → Option Float
  | .int i => some i.toFloat
  | .float x => some x
  | .bool b => some (if b then 1 else 0)
  | _ => none

/-- How many characters, items or fields the value has. -/
def length? : Value → Option Nat
  | .string s => some s.length
  | .seq items => some items.length
  | .map fields => some fields.length
  | _ => none

/-- A count as a value. Counts beyond the integers become floats. -/
def ofNat (n : Nat) : Value :=
  if n < 0x8000000000000000 then .int (Int64.ofNat n) else .float (Float.ofNat n)

/-- The key that marks a map as the text of a date. -/
def datetimeMark : String := "$__toml_private_datetime"

/-- The value of fields in any order. A map that only marks the text of a date is that text. -/
def ofFields (fields : List (String × Value)) : Value :=
  match Fields.ofList fields with
  | [(key, .string text)] => if key = datetimeMark then .string text else .map [(key, .string text)]
  | fields => .map fields

mutual

/-- The text of a value as templates write it. Items and fields are separated by commas, and fields
stand in braces. -/
def text : Value → String
  | .undefined | .null => ""
  | .bool b => if b then "true" else "false"
  | .int i => String.ofList (Decimal.ofInt i.toInt)
  | .float x => String.ofList (Decimal.ofFloat x)
  | .string s => s
  | .date d => String.ofList d.dashed
  | .seq items => ", ".intercalate (texts items)
  | .map fields => "\x7b" ++ ", ".intercalate (fieldTexts fields) ++ "\x7d"

def texts : List Value → List String
  | [] => []
  | item :: items => item.text :: texts items

def fieldTexts : List (String × Value) → List String
  | [] => []
  | (key, value) :: fields => (key ++ ": " ++ value.text) :: fieldTexts fields

end

/-- An index into a sequence: digits, with a plus sign allowed in front. -/
def index? (segment : List Char) : Option Nat :=
  let digits := match segment with
    | '+' :: rest => rest
    | _ => segment
  if digits.isEmpty || !digits.all Char.isDigit then none else some (Decimal.natOfDigits digits)

/-- The part of a value that one segment of a path names: a field of a map or an item of a
sequence. -/
def segment? (value : Value) (segment : String) : Option Value :=
  match value with
  | .map fields => Fields.find? segment fields
  | .seq items => (index? segment.toList).bind (items[·]?)
  | _ => none

mutual

/-- Replaces every text of the form `DD-MM-YYYY`, at any depth, by the date. -/
def readDates : Value → Value
  | .string s => (Date.ofDashed? s.toList).elim (.string s) .date
  | .seq items => .seq (readDatesItems items)
  | .map fields => .map (readDatesFields fields)
  | value => value

def readDatesItems : List Value → List Value
  | [] => []
  | item :: items => item.readDates :: readDatesItems items

def readDatesFields : List (String × Value) → List (String × Value)
  | [] => []
  | (key, value) :: fields => (key, value.readDates) :: readDatesFields fields

end

/-- Writes dates, and texts that read as dates, by a pattern; other values have their own text. -/
def formatDate (value : Value) (pattern : List Char) (locale : Locale) : String :=
  match value with
  | .date d => String.ofList (d.write locale pattern)
  | .string s => (Date.ofDashed? s.toList).elim s (fun d => String.ofList (d.write locale pattern))
  | other => other.text

theorem texts_eq_map (items : List Value) : texts items = items.map text := by
  induction items with
  | nil => simp [texts]
  | cons item items ih => simp [texts, ih]

theorem readDatesItems_eq_map (items : List Value) :
    readDatesItems items = items.map readDates := by
  induction items with
  | nil => simp [readDatesItems]
  | cons item items ih => simp [readDatesItems, ih]

theorem readDatesFields_eq_mapValues (fields : List (String × Value)) :
    readDatesFields fields = Fields.mapValues readDates fields := by
  induction fields with
  | nil => simp [readDatesFields, Fields.mapValues]
  | cons field fields ih =>
    obtain ⟨key, value⟩ := field
    simpa [readDatesFields, Fields.mapValues] using ih

end Value

end Folio
