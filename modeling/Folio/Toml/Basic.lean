import Folio.Fields

/-! The data of a TOML document. How a table came to be decides what may still be added to it. -/
namespace Folio.Toml

/-- What brought a table into being: a header, a header of a table inside it, a dotted key, or braces. -/
inductive Origin where
  | header
  | implied
  | dotted
  | braces
  deriving DecidableEq, Repr

/-- A value of a document. Dates and times are kept as their text. -/
inductive Item where
  | string (s : String)
  | integer (i : Int64)
  | float (x : Float)
  | boolean (b : Bool)
  | datetime (text : String)
  | array (items : List Item)
  | table (origin : Origin) (fields : List (String × Item))
  /-- Tables that were each begun by a header in double brackets. -/
  | tables (elements : List (List (String × Item)))
  deriving Inhabited

/-- A table under construction. -/
structure Table where
  origin : Origin
  fields : List (String × Item)

namespace Table

def empty (origin : Origin) : Table :=
  ⟨origin, []⟩

def toItem (table : Table) : Item :=
  .table table.origin table.fields

/-- Changes the table at a path of keys. Tables that are not there are made, with the origin
`dotted` or `implied`. A dotted key does not reach into a table that has a header, and nothing reaches
into a table in braces or into another value. The last of several tables stands for all. -/
def changeAt (dotted : Bool) (change : Table → Option Table) : List String → Table → Option Table
  | [], table => change table
  | key :: rest, table =>
    let inside (origin : Origin) (fields : List (String × Item)) : Option Table :=
      changeAt dotted change rest ⟨origin, fields⟩
    let item : Option Item :=
      match Fields.find? key table.fields with
      | none => (inside (if dotted then .dotted else .implied) []).map toItem
      | some (.table origin fields) =>
        if origin = .braces || (dotted && origin = .header) then none
        else (inside origin fields).map toItem
      | some (.tables elements) =>
        elements.getLast?.bind (fun last =>
          (inside .header last).map (fun inner => .tables (elements.dropLast ++ [inner.fields])))
      | some _ => none
    item.map (fun item => { table with fields := Fields.put key item table.fields })

/-- Adds a key and its value. The keys before the last name tables that only dotted keys make. -/
def assign (keys : List String) (value : Item) (table : Table) : Option Table :=
  match keys.getLast? with
  | none => none
  | some last =>
    let outer := keys.dropLast
    changeAt true (fun inner =>
      if inner.origin = .dotted && outer.isEmpty || inner.origin ≠ .dotted && !outer.isEmpty then none
      else if (Fields.find? last inner.fields).isSome then none
      else some { inner with fields := Fields.put last value inner.fields }) outer table

/-- Begins the table of a header. It may only have been implied before. -/
def begin (path : List String) (table : Table) : Option Table :=
  match path.getLast? with
  | none => none
  | some last =>
    changeAt false (fun outer =>
      let begun (fields : List (String × Item)) : Option Table :=
        some { outer with fields := Fields.put last (.table .header fields) outer.fields }
      match Fields.find? last outer.fields with
      | none => begun []
      | some (.table .implied fields) => begun fields
      | some _ => none) path.dropLast table

/-- Begins one more of the tables of a header in double brackets. -/
def beginNext (path : List String) (table : Table) : Option Table :=
  match path.getLast? with
  | none => none
  | some last =>
    changeAt false (fun outer =>
      let begun (elements : List (List (String × Item))) : Option Table :=
        some { outer with fields := Fields.put last (.tables (elements ++ [[]])) outer.fields }
      match Fields.find? last outer.fields with
      | none => begun []
      | some (.tables elements) => begun elements
      | some _ => none) path.dropLast table

end Table

end Folio.Toml
