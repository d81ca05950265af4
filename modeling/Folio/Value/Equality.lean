import Folio.Value.Number

/-! Two equalities of values. `same` compares kind and content; `equal`, which templates use, also
holds an integer and a float of one size for equal, but does not look for them inside sequences and
maps. -/
namespace Folio.Value

mutual

/-- Equality of kind and content. Floats compare as numbers. -/
def same : Value → Value → Bool
  | .undefined, .undefined => true
  | .null, .null => true
  | .bool a, .bool b => a == b
  | .int a, .int b => a == b
  | .float a, .float b => a == b
  | .string a, .string b => a == b
  | .date a, .date b => a == b
  | .seq a, .seq b => sameItems a b
  | .map a, .map b => sameFields a b
  | _, _ => false

def sameItems : List Value → List Value → Bool
  | [], [] => true
  | a :: as, b :: bs => a.same b && sameItems as bs
  | _, _ => false

def sameFields : List (String × Value) → List (String × Value) → Bool
  | [], [] => true
  | (j, a) :: as, (k, b) :: bs => j == k && a.same b && sameFields as bs
  | _, _ => false

end

/-- The equality of templates: numbers of different kinds are compared as floats. -/
def equal : Value → Value → Bool
  | .int a, .float b => floatOfInt a.toInt == b
  | .float a, .int b => a == floatOfInt b.toInt
  | a, b => same a b

/-- An item of a sequence, a key of a map or a part of a text. -/
def contains (container item : Value) : Bool :=
  match container with
  | .seq items => items.any (fun candidate => equal candidate item)
  | .map fields => (Fields.find? item.text fields).isSome
  | .string s => Text.containsText item.text.toList s.toList
  | _ => false

/-- The order of two texts, dates or numbers. Other values have none, and neither has a float that is
not a number. -/
def order? : Value → Value → Option Ordering
  | .string a, .string b => some (if a < b then .lt else if a = b then .eq else .gt)
  | .date a, .date b => some (a.compare b)
  | .int a, .int b => some (Ord.compare a.toInt b.toInt)
  | .int a, .float b => floats (floatOfInt a.toInt) b
  | .float a, .int b => floats a (floatOfInt b.toInt)
  | .float a, .float b => floats a b
  | _, _ => none
where
  floats (a b : Float) : Option Ordering :=
    if a < b then some .lt else if a == b then some .eq else if b < a then some .gt else none

end Folio.Value
