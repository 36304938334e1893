import Linkage.Table.Basic
import Linkage.Table.Column
import Linkage.Value.Order

/-!
# Tables from records

A list of records becomes a table whose columns are the names of their fields, in the order in
which they are met; a field that a record lacks is a missing cell. What the first item of the
list is decides how all are read: after an object every item is an object or a sequence of
pairs, after anything else the items have no names and the columns are numbered.

A sequence is a list, a text, which is the sequence of its characters, or an object, which is
the sequence of its names.
-/

namespace Linkage

/-- Why a list is no list of records. -/
inductive RecordFault where
  /-- An item or a part of one is no sequence, or a name is a list or an object. -/
  | noParts
  /-- A part of an item is no pair: its position and its length. -/
  | badPair (position length : Nat)
  /-- A number is too large for a floating point number. -/
  | outOfRange
  deriving DecidableEq, Repr

/-- The wording for a list that is no list of records, where there is one. -/
def RecordFault.message? : RecordFault → Option String
  | badPair position length =>
    some (s!"dictionary update sequence element #{position} has length {length}; 2 is required")
  | _ => none

namespace Records

/-- A record: its fields in order. -/
abbrev Row := List (Value Float × Value Float)

/-- The parts of a sequence. -/
def parts? : Value Float → Option (List (Value Float))
  | .list xs => some xs
  | .text s => some (s.toList.map fun c => .text (String.singleton c))
  | .map es => some (es.map Prod.fst)
  | _ => none

/-- Whether a value may be a name. -/
def isName : Value Float → Bool
  | .list _ => false
  | .map _ => false
  | _ => true

/-- The record with the fields that a list of pairs stores one after the other, the first of
them at a position. -/
def fields (position : Nat) (held : Row) : List (Value Float) → Except RecordFault Row
  | [] => .ok held
  | v :: rest =>
    match parts? v with
    | none => .error .noParts
    | some [key, x] =>
      if isName key then fields (position + 1) (Value.store key x held) rest else .error .noParts
    | some xs => .error (.badPair position xs.length)

/-- The record that an item stands for. -/
def row (item : Value Float) : Except RecordFault Row :=
  match item with
  | .map es => .ok es
  | _ =>
    match parts? item with
    | some xs => fields 0 [] xs
    | none => .error .noParts

/-- The cell under a name in a record. -/
def cell (key : Value Float) (r : Row) : Value Float :=
  match r.find? fun e => Value.same e.1 key with
  | some e => e.2
  | none => .real (0 / 0)

/-- The names in a list of rows, each where it is met first. -/
def names (rows : List Row) : List (Value Float) :=
  (rows.foldl (fun held r => r.foldl (fun held e => Value.store e.1 .null held) held) []).map
    Prod.fst

/-- The columns of some rows under some names. A field that a row lacks is an undefined number,
and the cells of a column are made alike. -/
def tabulate (keys : List (Value Float)) (rows : List Row) :
    Except RecordFault (List (Value Float × List (Value Float))) :=
  keys.mapM fun key =>
    match Column.unified? (rows.map (cell key)) with
    | some cells => .ok (key, cells)
    | none => .error .outOfRange

/-- A table by its columns. -/
structure Columns where
  /-- The names of the columns. -/
  names : List String
  /-- The number of rows. -/
  height : Nat
  /-- The cells of each column. -/
  cells : List (List (Value Float))

/-- The columns whose name is a text. -/
def named (columns : List (Value Float × List (Value Float))) :
    List (String × List (Value Float)) :=
  columns.filterMap fun c => match c.1 with | .text name => some (name, c.2) | _ => none

/-- The table of a list that begins with an object. -/
def ofObjects (items : List (Value Float)) : Except RecordFault Columns := do
  let rows ← items.mapM row
  let columns ← tabulate (names rows) rows
  let columns := named columns
  return ⟨columns.map Prod.fst, items.length, columns.map Prod.snd⟩

/-- The parts of some rows that stand at a position; nothing where a row is too short. -/
def partsAt (rows : List (List (Value Float))) (position : Nat) : List (Value Float) :=
  rows.map fun r => r.getD position .null

/-- Whether the numbers in some rows without names are in range. -/
def isInRange (rows : List (List (Value Float))) : Bool :=
  let width := rows.foldl (fun n r => max n r.length) 0
  (List.range width).all fun i => (Column.unified? (partsAt rows i)).isSome

/-- The table of a list of records. Numbered columns have no names. -/
def ofItems (items : List (Value Float)) : Except RecordFault Columns :=
  match items with
  | [] => .ok ⟨[], 0, []⟩
  | .map _ :: _ => ofObjects items
  | _ =>
    match items.mapM parts? with
    | none => .error .noParts
    | some rows => if isInRange rows then .ok ⟨[], items.length, []⟩ else .error .outOfRange

/-- The table of a list whose first item may also be a plain value. -/
def ofDocuments (items : List (Value Float)) : Except RecordFault Columns :=
  match items with
  | .map _ :: _ => ofObjects items
  | .list _ :: _ => ofItems items
  | _ => .ok ⟨[], items.length, []⟩

/-- The rows of a table given by its columns. -/
def Columns.toTable (c : Columns) : Table Float where
  columns := c.names
  rows := (List.range c.height).map fun i => c.cells.map fun column => column.getD i .null

end Records

/-- The table of a list of records. -/
def Table.ofRecords (items : List (Value Float)) : Except RecordFault (Table Float) :=
  (Records.ofItems items).map Records.Columns.toTable

/-- The table of documents on lines: texts that stand for numbers count as numbers. -/
def Table.ofLines (items : List (Value Float)) : Except RecordFault (Table Float) :=
  (Records.ofDocuments items).map fun c =>
    { c with cells := c.cells.map Column.converted }.toTable

end Linkage
