import Linkage.Number.Shortest
import Linkage.Table.Basic
import Linkage.Value.Text

/-!
# Tables as separated fields

A table is written one row per line, with commas between the fields and the names of the
columns in the first line. A field stands between quotation marks when it holds a comma, a
quotation mark or a line break; a quotation mark inside it is written twice. A missing cell is
an empty field.
-/

namespace Linkage.Table

/-- Whether a field has to be quoted. -/
def needsQuotes (cs : List Char) : Bool := cs.any fun c => c == ',' || c == '"' || c == '\n'

/-- A field. -/
def fieldText (s : String) : String :=
  let cs := s.toList
  if needsQuotes cs then
    String.ofList ('"' :: (cs.flatMap (fun c => if c = '"' then ['"', '"'] else [c]) ++ ['"']))
  else s

/-- A cell as the text of a field. -/
def cellText : Value Float → String
  | .null => ""
  | .absent => ""
  | .real x => if x.isNaN then "" else shortest x
  | v => v.plain

/-- A line of fields. -/
def fieldLine (fields : List String) : String := Text.join "," (fields.map fieldText) ++ "\n"

/-- A table as lines of separated fields. -/
def separated (t : Table Float) : String :=
  Text.join "" (fieldLine t.columns :: t.rows.map fun r => fieldLine (r.map cellText))

end Linkage.Table
