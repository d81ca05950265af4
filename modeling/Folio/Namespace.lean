import Folio.Value.Equality

/-! Namespaces: the variables that a document is written with. Paths such as `client.address.city`
lead into nested values, and layers of variables are laid over one another key by key. -/
namespace Folio

/-- Variables in ascending order of their names. -/
structure Namespace where
  fields : List (String × Value)
  sorted : Fields.Sorted fields

namespace Namespace

def empty : Namespace :=
  ⟨[], List.Pairwise.nil⟩

instance : Inhabited Namespace := ⟨empty⟩

/-- The namespace of a list of variables; the last variable of a name counts. -/
def ofList (entries : List (String × Value)) : Namespace :=
  ⟨Fields.ofList entries, Fields.sorted_ofList entries⟩

def get? (ns : Namespace) (name : String) : Option Value :=
  Fields.find? name ns.fields

def insert (ns : Namespace) (name : String) (value : Value) : Namespace :=
  ⟨Fields.put name value ns.fields, Fields.sorted_put ns.sorted name value⟩

def size (ns : Namespace) : Nat :=
  ns.fields.length

def toValue (ns : Namespace) : Value :=
  .map ns.fields

/-- The segments of a dotted path. A path has at least one. -/
def segments (path : String) : List String :=
  (Text.splitOn '.' path.toList).map String.ofList

/-- Follows segments into a value. -/
def descend (value : Value) (path : List String) : Option Value :=
  path.foldlM Value.segment? value

/-- The value at a dotted path. -/
def at? (ns : Namespace) (path : String) : Option Value :=
  match segments path with
  | [] => none
  | name :: rest => (ns.get? name).bind (fun value => descend value rest)

/-- The path leads to a value other than `undefined`. -/
def hasValueAt (ns : Namespace) (path : String) : Bool :=
  (ns.at? path).any (fun value => !value.isUndefined)

/-- Replaces every text that reads as a date by the date. -/
def readDates (ns : Namespace) : Namespace :=
  ⟨Fields.mapValues Value.readDates ns.fields, Fields.sorted_mapValues ns.sorted _⟩

/-- Lays one namespace over another. -/
def merge (base upper : Namespace) : Namespace :=
  ⟨Fields.putAll base.fields upper.fields, Fields.sorted_putAll base.sorted upper.fields⟩

/-- Lays the layers over one another, later ones on top, and reads dates in all of them. A layer that
is absent changes nothing. -/
def mergeLayers (layers : List (Option Namespace)) : Namespace :=
  layers.foldl (fun merged layer => layer.elim merged (fun ns => merged.merge ns.readDates)) empty

@[ext] theorem ext_get? {a b : Namespace} (h : ∀ name, a.get? name = b.get? name) : a = b := by
  cases a; cases b
  congr
  exact Fields.eq_of_find? ‹_› ‹_› h

theorem get?_insert (ns : Namespace) (name other : String) (value : Value) :
    (ns.insert name value).get? other = if other = name then some value else ns.get? other :=
  Fields.find?_put ..

end Namespace

end Folio
