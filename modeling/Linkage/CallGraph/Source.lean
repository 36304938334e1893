import Linkage.CallGraph.Document
import Linkage.CallGraph.EdgeTable
import Linkage.File.Tree
import Linkage.Json.Lines
import Linkage.Json.Reader
import Linkage.Table.FieldReader
import Linkage.Table.Records
import Linkage.Text.Lowercase

/-!
# Call graph files

The suffix of a file decides how its call graph is read: as separated fields, as lines of
objects, or as a document. A document that is an object is a call graph, one that is a list is
an edge table, and a text that is no document is read as lines of objects after all. An empty
text is the empty call graph, except among separated fields.

A document is read down to the number of levels that the stack leaves for all that walks
through it: the reader, the wording of what is wrong with one of its parts, and the text of a
cell. One that is nested deeper is no failure of the file but of the surroundings.
-/

namespace Linkage

/-- Why a call graph cannot be read. -/
inductive SourceFault where
  /-- The file cannot be read. -/
  | file (e : FileError)
  /-- The suffix is not known. -/
  | unknownSuffix (suffix : String)
  /-- The document is neither an object nor a list. -/
  | unknownDocument (path : String)
  /-- The object is no call graph. -/
  | document (e : DocumentFault)
  /-- The table is no edge table. -/
  | columns (e : EdgeTableFault)
  /-- The separated fields are no table. -/
  | fields (e : FieldReader.FieldFault)
  /-- The lines are no documents. -/
  | lines (e : Json.LineFault)
  /-- The documents are no records. -/
  | records (e : RecordFault)
  /-- A whole number in a document has too many digits. -/
  | tooLong (digits : Nat)
  /-- A document is nested too deep for the stack. -/
  | tooDeep
  deriving DecidableEq, Repr

namespace SourceFault

/-- The wording for a number of too many digits. -/
def tooLongMessage (digits : Nat) : String :=
  s!"Exceeds the limit ({maxIntegerDigits} digits) for integer string conversion: value has " ++
    s!"{digits} digits; use sys.set_int_max_str_digits() to increase the limit"

/-- The wording for a call graph that cannot be read, where there is one. -/
def message? : SourceFault → Option String
  | file e => some e.message
  | unknownSuffix s => some ("Unsupported file type '" ++ s ++ "' for call graph data")
  | unknownDocument path => some ("Unsupported call graph document in '" ++ path ++ "'")
  | document e => some e.message
  | columns e => EdgeTable.message? e
  | fields e => some e.message
  | lines e => e.message?
  | records e => e.message?
  | tooLong digits => some (tooLongMessage digits)
  | tooDeep => none

end SourceFault

namespace CallGraph

/-- A failure under another name. -/
def named {ε δ α : Type} (f : ε → δ) : Except ε α → Except δ α
  | .ok x => .ok x
  | .error e => .error (f e)

/-- The call graph of a table. -/
def ofTable (t : Table Float) : Except SourceFault CallGraph := named .columns (EdgeTable.graph t)

/-- The call graph in separated fields. -/
def ofFields (s : String) : Except SourceFault CallGraph := do
  ofTable (← named .fields (FieldReader.table s))

/-- The call graph in lines of objects. -/
def ofLines (s : String) : Except SourceFault CallGraph := do
  if (Text.trimBlanks s.toList).isEmpty then return OrderedMap.empty
  let items ← named .lines (Json.Lines.read s)
  ofTable (← named .records (Table.ofLines items))

/-- The call graph that a document stands for, in a file with a path. -/
def ofDocument (path : String) : Value Float → Except SourceFault CallGraph
  | .map es => named .document (ofValue (unwrapped es))
  | .list items => do ofTable (← named .records (Table.ofRecords items))
  | _ => .error (.unknownDocument path)

/-- The call graph in a text that may be a document, in a file with a path. -/
def ofDocumentText (levels : Nat) (path s : String) : Except SourceFault CallGraph :=
  let cs := Text.trimBlanks s.toList
  if cs.isEmpty then .ok OrderedMap.empty
  else
    match Json.readChars levels cs with
    | .ok v => ofDocument path v
    | .error .malformed => ofLines s
    | .error (.tooLong digits) => .error (.tooLong digits)
    | .error .tooDeep => .error .tooDeep

/-- How a call graph is kept in a file. -/
inductive Form where
  /-- Separated fields. -/
  | fields
  /-- Lines of objects. -/
  | lines
  /-- A document. -/
  | document
  deriving DecidableEq, Repr

/-- The form that a suffix stands for, in any letter case. -/
def formOf? (suffix : String) : Option Form :=
  let s := Text.lowercase suffix
  if s = ".csv" then some .fields
  else if s = ".jsonl" ∨ s = ".ndjson" then some .lines
  else if s = ".json" then some .document
  else none

/-- The call graph of a file. The suffix is looked at before the file is. -/
def load (levels : Nat) (t : FileTree) (p : FilePath) : Except SourceFault CallGraph := do
  match formOf? p.suffix with
  | none => throw (.unknownSuffix (Text.lowercase p.suffix))
  | some form => do
    let s ← named .file (t.readText p)
    match form with
    | .fields => ofFields s
    | .lines => ofLines s
    | .document => ofDocumentText levels p.text s

end CallGraph

end Linkage
