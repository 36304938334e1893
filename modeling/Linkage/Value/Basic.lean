import Linkage.Module.Parameters

/-!
# Values

Documents, table cells and the payloads of diagnostics hold values whose kind is known only
when they are read. A map keeps the order in which its keys were first stored. A set of numbers
keeps its members in increasing order, and another set in the order in which they were first
given.
-/

namespace Linkage

/-- The kind of a number that was taken out of a typed array. -/
inductive ArrayKind where
  | double | single | integer | flag
  deriving DecidableEq, Repr

/-- A **value** of a kind known only when it is read. -/
inductive Value (α : Type) where
  /-- No value. -/
  | null
  /-- A truth value. -/
  | flag (b : Bool)
  /-- An integer. -/
  | int (n : Int)
  /-- A scalar. -/
  | real (x : α)
  /-- A text. -/
  | text (s : String)
  /-- A list. -/
  | list (items : List (Value α))
  /-- A fixed sequence. -/
  | tuple (items : List (Value α))
  /-- A set, frozen when it may not change. -/
  | set (frozen : Bool) (members : List (Value α))
  /-- A map from values to values. -/
  | map (entries : List (Value α × Value α))
  /-- A row of bytes. -/
  | bytes (bytes : List UInt8)
  /-- A number out of a typed array. -/
  | cell (kind : ArrayKind) (content : Value α)
  /-- The mark of a missing cell. -/
  | absent
  /-- A module. -/
  | group (m : Module α)
  /-- The parameters of an analysis. -/
  | settings (p : Parameters α)
  /-- Another object that gives a record: the name of its kind, its plain and its exact text,
  and the record. -/
  | object (kind plainText exactText : String) (record : Value α)

namespace Value

variable {α : Type}

/-- A map from texts. -/
def record (fields : List (String × Value α)) : Value α :=
  map (fields.map fun f => (text f.1, f.2))

/-- A list of texts. -/
def texts (xs : List String) : Value α := list (xs.map text)

/-- The value stored under a text in a list of entries. -/
def field? (key : String) : List (Value α × Value α) → Option (Value α)
  | [] => none
  | (.text k, v) :: rest => if k = key then some v else field? key rest
  | _ :: rest => field? key rest

/-- A text, or no value. -/
def ofText? : Option String → Value α
  | none => null
  | some s => text s

end Value

/-- The fields of a module. -/
def Module.toValue {α : Type} (m : Module α) : Value α :=
  .record [("module_id", .text m.id), ("node_id", .text m.nodeId),
    ("class_count", .int m.classCount), ("average_coupling", .real m.averageCoupling),
    ("classes", .texts m.classes)]

/-- The fields of the parameters of an analysis. -/
def Parameters.toValue {α : Type} (p : Parameters α) : Value α :=
  .record [("min_coupling", .real p.minCoupling), ("keep_singletons", .flag p.keepSingletons),
    ("module_prefix", .text p.naming)]

end Linkage
