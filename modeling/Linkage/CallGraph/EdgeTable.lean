import Linkage.CallGraph.Basic
import Linkage.Table.Basic
import Linkage.Table.Column
import Linkage.Value.Text

/-!
# Edge tables

A call graph can be given as a table with a column of callers and a column of callees, one call
per row. A row without a caller says nothing; a row without a callee says that its caller
exists. Other columns, the order of the rows and repeated rows do not matter.

A table is brought into form first: other columns are dropped, and a cell that is not missing
becomes a text, a row of bytes the text that it encodes.
-/

namespace Linkage

/-- An **edge**: a caller and a callee, each of which may be missing. -/
abbrev CallEdge := Option String × Option String

/-- Why a table is no edge table. -/
inductive EdgeTableFault where
  /-- It lacks required columns, which are listed in increasing order. -/
  | lacking (columns : List String)
  /-- It has a required column more than once. -/
  | repeated (column : String)
  /-- It has a cell of bytes that encode no text. -/
  | undecodable
  deriving DecidableEq, Repr

namespace EdgeTable

/-- The column of callers. -/
def callerColumn : String := "caller"

/-- The column of callees. -/
def calleeColumn : String := "callee"

/-- The columns that an edge table needs. -/
def required : List String := [callerColumn, calleeColumn]

/-- The wording for a table that is no edge table, where there is one. -/
def message? : EdgeTableFault → Option String
  | .lacking columns =>
    some ("Call Edges data is missing required columns: " ++ Text.join ", " columns ++
      ". Expected columns include: " ++ Text.join ", " required ++ ".")
  | .repeated _ => none
  | .undecodable => none

/-- The required columns that are not among some columns, in increasing order. -/
def lacking (columns : List String) : List String :=
  Text.members (required.filter fun c => !columns.contains c)

/-- A cell as a text, unless it is missing. -/
def textCell (v : Value Float) : Except EdgeTableFault (Value Float) :=
  if v.isMissing then .ok .null
  else
    match v with
    | .bytes bs =>
      match String.fromUTF8? ⟨bs.toArray⟩ with
      | some s => .ok (.text s)
      | none => .error .undecodable
    | _ => .ok (.text v.plain)

/-- The cells of a row in the required columns. -/
def requiredCells (t : Table Float) (row : List (Value Float)) : List (Value Float) :=
  required.flatMap fun c => ((t.labelled row).filter fun e => e.1 == c).map Prod.snd

/-- A table with the required columns alone, and its cells as texts. -/
def conform (t : Table Float) : Except EdgeTableFault (Table Float) :=
  match lacking t.columns with
  | [] =>
    (t.rows.mapM fun row => (requiredCells t row).mapM textCell).map fun rows =>
      ⟨required.flatMap fun c => t.columns.filter (· == c), rows⟩
  | columns => .error (.lacking columns)

/-- The edge in a row of a table in form. -/
def edge (t : Table Float) (row : List (Value Float)) : CallEdge :=
  let text? := fun c => match (t.labelled row).lookup c with | some (.text s) => some s | _ => none
  (text? callerColumn, text? calleeColumn)

/-- A required column that occurs more than once and stands in the way. A second column of
callers always does; a second column of callees does when there is a row with a caller. -/
def repeated? (t : Table Float) : Option String :=
  if 1 < t.columns.count callerColumn then some callerColumn
  else if 1 < t.columns.count calleeColumn && t.rows.any (fun row => (edge t row).1.isSome) then
    some calleeColumn
  else none

/-- The edges of a table in form, row by row. -/
def edges (t : Table Float) : Except EdgeTableFault (List CallEdge) :=
  match repeated? t with
  | some column => .error (.repeated column)
  | none => .ok (t.rows.map (edge t))

/-- The call graph with one more edge. -/
def addEdge (g : CallGraph) (e : CallEdge) : CallGraph :=
  match e.1 with
  | none => g
  | some caller => g.insert caller (g.getD caller [] ++ e.2.toList)

/-- The call graph of a list of edges. -/
def graphOf (es : List CallEdge) : CallGraph := es.foldl addEdge OrderedMap.empty

/-- The call graph of a table. -/
def graph (t : Table Float) : Except EdgeTableFault CallGraph := do
  let t ← conform t
  return graphOf (← edges t)

end EdgeTable

end Linkage
