import Linkage.Value.Basic

/-!
# Tables

A table has named columns and rows with one cell per column.
-/

namespace Linkage

/-- A **table**. -/
structure Table (α : Type) where
  /-- The names of the columns. -/
  columns : List String
  /-- The rows, with one cell per column. -/
  rows : List (List (Value α))

namespace Table

variable {α : Type}

/-- A row with the names of its cells. -/
def labelled (t : Table α) (row : List (Value α)) : List (String × Value α) := t.columns.zip row

/-- The cells of a row under some columns, in the order of those. -/
def select (t : Table α) (columns : List String) (row : List (Value α)) : List (Value α) :=
  columns.map fun c => ((t.labelled row).lookup c).getD .null

/-- The table of some columns and rows, unless the longest row has not one cell per column. The
cells that a shorter row lacks hold nothing. -/
def ofRows? (columns : List String) (rows : List (List (Value α))) : Option (Table α) :=
  let width := rows.foldl (fun n r => max n r.length) 0
  if rows.isEmpty || width == columns.length then
    some ⟨columns, rows.map fun r => r ++ List.replicate (width - r.length) .null⟩
  else none

end Table

end Linkage
