import Linkage.Schema.Bundled
import Linkage.Schema.Text
import Linkage.Table.Basic
import Linkage.Table.Column
import Linkage.Value.Order

/-!
# Checking records and tables

Records are checked one after the other against a schema; the first violation of the first
record that has one is reported. A row of a table is checked as an object on the names of the
columns. A missing cell is checked as null, and the cells of some columns are checked as texts.
-/

namespace Linkage.Schema

variable {α : Type} [Scalar α]

/-- The first violation of a list of records, with the position of its record. -/
def firstViolation (s : Schema) (records : List (Value α)) : Option (Nat × Violation α) :=
  records.zipIdx.findSome? fun r => (s.violations r.1).head?.map fun v => (r.2, v)

mutual

/-- A cell without what is special about tables: missing cells are null, and a sequence or set
of cells is a list. -/
def cellValue : Value α → Value α
  | .list xs => .list (cellValues xs)
  | .tuple xs => .list (cellValues xs)
  | .set _ xs => .list (cellValues xs)
  | .cell _ v => if v.isMissing then .null else v
  | v => if v.isMissing then .null else v

/-- The cells of a list without what is special about tables. -/
def cellValues : List (Value α) → List (Value α)
  | [] => []
  | v :: rest => cellValue v :: cellValues rest

end

/-- A value as a text, unless it is null or a list. Other values are turned into texts as
given. -/
def asText (plain : Value α → String) : Value α → Value α
  | .null => .null
  | .list xs => .list xs
  | .text s => .text s
  | v => .text (plain v)

/-- A row of a table as an object. Of columns of the same name the last one counts. -/
def rowRecord (plain : Value α → String) (textColumns : List String) (t : Table α)
    (row : List (Value α)) : Value α :=
  let fields : OrderedMap String (Value α) := OrderedMap.ofList ((t.labelled row).map fun c =>
    let v := cellValue c.2
    (c.1, if textColumns.contains c.1 then asText plain v else v))
  .record fields.entries

/-- The rows of a table as objects. A table without columns has none. -/
def rowRecords (plain : Value α → String) (textColumns : List String) (t : Table α) :
    List (Value α) :=
  if t.columns.isEmpty then [] else t.rows.map (rowRecord plain textColumns t)

/-- A record that violates a schema. -/
structure Breach where
  /-- The name of the schema. -/
  schema : String
  /-- The position of the record. -/
  index : Nat
  /-- What is wrong. -/
  detail : String
  deriving DecidableEq, Repr

/-- The wording for a record that violates a schema. -/
def Breach.message (b : Breach) : String :=
  b.schema ++ " record " ++ toString b.index ++ " failed validation: " ++ b.detail

/-- Why records do not pass. -/
inductive CheckFault where
  /-- There is no such schema. -/
  | absent (a : Absence)
  /-- A record violates the schema. -/
  | breach (b : Breach)
  deriving DecidableEq, Repr

section

variable (plain : Value α → String) (wording : Violation α → String)

/-- The first record that violates a schema, with the wording of its violation. -/
def breachWith? (name : String) (s : Schema) (records : List (Value α)) : Option Breach :=
  (firstViolation s records).map fun r => ⟨name, r.1, wording r.2⟩

/-- Checks records against the schema of a name and a version, under a wording
of violations. -/
def checkRecordsWith (name version : String) (records : List (Value α)) : Except CheckFault Unit :=
  match find name version with
  | .error a => .error (.absent a)
  | .ok s =>
    match breachWith? wording name s records with
    | some b => .error (.breach b)
    | none => .ok ()

/-- Checks the rows of a table against the schema of a name and a version, under a wording of
values and of violations. A table without rows or columns passes whatever the schema. -/
def checkTableWith (name version : String) (textColumns : List String) (t : Table α) :
    Except CheckFault Unit :=
  match rowRecords plain textColumns t with
  | [] => .ok ()
  | records => checkRecordsWith wording name version records

end

/-- The first record that violates a schema. -/
def breach? (name : String) (s : Schema) (records : List (Value Float)) : Option Breach :=
  breachWith? Violation.message name s records

/-- Checks records against the schema of a name and a version. -/
def checkRecords (name version : String) (records : List (Value Float)) : Except CheckFault Unit :=
  checkRecordsWith Violation.message name version records

/-- Checks the rows of a table against the schema of a name and a version. -/
def checkTable (name version : String) (textColumns : List String) (t : Table Float) :
    Except CheckFault Unit :=
  checkTableWith Value.plain Violation.message name version textColumns t

end Linkage.Schema
