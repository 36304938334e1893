import Linkage.Table.Basic

/-!
# Reading separated fields

A text is cut into records at line breaks and into fields at commas. A field that begins with a
quotation mark goes on to the closing mark, over commas and line breaks; a doubled mark inside
it is one mark, and what follows the closing mark belongs to the field. Lines of blanks are
skipped. A line feed, a carriage return, or both together end a line; a comma right after the
carriage return of a skipped line is skipped with it.

The first record names the columns. A record that is short is filled with missing fields up to
the length of the one before it, and no later record may be longer. When the first data record
is longer than the header, the fields at the beginning of every record are an index without a
name.

A field ends before its first zero character. A field is missing when it is empty or one of the
customary words for a missing value.
-/

namespace Linkage.FieldReader

/-- Why a text is no table of separated fields. -/
inductive FieldFault where
  /-- There is no record. -/
  | noColumns
  /-- A record is too long: the length expected, the number of its line, and its length. -/
  | tooLong (expected line found : Nat)
  /-- The closing quotation mark is missing, after a number of lines. -/
  | openQuote (lines : Nat)
  deriving DecidableEq, Repr

/-- The wording for a text that is no table of separated fields. -/
def FieldFault.message : FieldFault → String
  | noColumns => "No columns to parse from file"
  | tooLong expected line found =>
    s!"Error tokenizing data. C error: Expected {expected} fields in line {line}, saw {found}\n"
  | openQuote lines => s!"Error tokenizing data. C error: EOF inside string starting at row {lines}"

/-- Where a reader stands. -/
inductive Position where
  /-- At the beginning of a line. -/
  | lineStart
  /-- After blanks at the beginning of a line. -/
  | afterBlanks
  /-- At the beginning of a field. -/
  | fieldStart
  /-- Inside a field. -/
  | inField
  /-- Inside quotation marks. -/
  | inQuotes
  /-- After a quotation mark inside quotation marks. -/
  | afterQuote
  /-- After a carriage return that ends a record. -/
  | afterReturn
  /-- After a carriage return that ends a line without a record. -/
  | afterBlankReturn
  deriving DecidableEq, Repr

/-- A record, and the number of lines up to its end. -/
abbrev Record := List String × Nat

/-- What a reader has gathered. -/
structure Reader where
  /-- Where it stands. -/
  position : Position
  /-- The characters of the field, last first. -/
  held : List Char
  /-- The fields of the record, last first. -/
  fields : List String
  /-- The records, last first. -/
  records : List Record
  /-- The number of lines that have ended. -/
  lines : Nat

namespace Reader

/-- The reader before the text. -/
def initial : Reader := ⟨.lineStart, [], [], [], 0⟩

/-- One more character of the field. -/
def push (r : Reader) (c : Char) (position : Position) : Reader :=
  { r with held := c :: r.held, position }

/-- The field is complete. What comes after a zero character is no part of it. -/
def endField (r : Reader) (position : Position) : Reader :=
  { r with
    fields := String.ofList (r.held.reverse.takeWhile (· != '\x00')) :: r.fields
    held := []
    position }

/-- The record is complete. -/
def endRecord (r : Reader) : Reader :=
  { r with
    records := (r.fields.reverse, r.lines + 1) :: r.records
    fields := []
    lines := r.lines + 1
    position := .lineStart }

/-- A line without a record is complete. -/
def skipLine (r : Reader) (position : Position) : Reader :=
  { r with held := [], lines := r.lines + 1, position }

/-- A character inside a field, or after one that was quoted. -/
def readInField (r : Reader) (c : Char) : Reader :=
  if c = '\n' then (r.endField .fieldStart).endRecord
  else if c = '\r' then r.endField .afterReturn
  else if c = ',' then r.endField .fieldStart
  else r.push c .inField

/-- A character at the beginning of a field. -/
def readFieldStart (r : Reader) (c : Char) : Reader :=
  if c = '"' then { r with position := .inQuotes } else r.readInField c

/-- Whether a character is a blank that may stand on a line without a record. -/
def isLineBlank (c : Char) : Bool := c == ' ' || c == '\t'

/-- A character at the beginning of a line. -/
def readLineStart (r : Reader) (c : Char) : Reader :=
  if c = '\n' then r.skipLine .lineStart
  else if c = '\r' then r.skipLine .afterBlankReturn
  else if isLineBlank c then r.push c .afterBlanks
  else r.readFieldStart c

/-- The reader after one more character. -/
def read (r : Reader) (c : Char) : Reader :=
  match r.position with
  | .lineStart => r.readLineStart c
  | .afterBlanks =>
    if c = '\n' then r.skipLine .lineStart
    else if c = '\r' then r.skipLine .afterBlankReturn
    else if isLineBlank c then r.push c .afterBlanks
    else r.readInField c
  | .fieldStart => r.readFieldStart c
  | .inField => r.readInField c
  | .inQuotes => if c = '"' then { r with position := .afterQuote } else r.push c .inQuotes
  | .afterQuote => if c = '"' then r.push c .inQuotes else r.readInField c
  | .afterReturn => if c = '\n' then r.endRecord else r.endRecord.readLineStart c
  | .afterBlankReturn =>
    if c = '\n' ∨ c = ',' then { r with position := .lineStart }
    else { r with position := .lineStart }.readLineStart c

/-- The reader after the last character; a failure when a quotation mark is open. -/
def finish (r : Reader) : Except FieldFault Reader :=
  match r.position with
  | .lineStart | .afterBlanks | .afterBlankReturn => .ok r
  | .inQuotes => .error (.openQuote r.lines)
  | .afterReturn => .ok r.endRecord
  | .fieldStart | .inField | .afterQuote => .ok (r.endField .fieldStart).endRecord

end Reader

/-- A text without the mark of its byte order. -/
def withoutMark (cs : List Char) : List Char :=
  match cs with
  | c :: rest => if c.toNat = 0xFEFF then rest else cs
  | [] => []

/-- A record filled up to a length with missing fields. -/
def filled (length : Nat) (fields : List String) : List String :=
  fields ++ List.replicate (length - fields.length) ""

/-- Records after the first data record, each as long as the one before it. -/
def levelled (length : Nat) : List Record → Except FieldFault (List (List String))
  | [] => .ok []
  | (fields, line) :: rest =>
    if length < fields.length then .error (.tooLong length line fields.length)
    else (levelled length rest).map (filled length fields :: ·)

/-- The data records. The first one may be longer than the header. -/
def levelledData (header : List String) : List Record → Except FieldFault (List (List String))
  | [] => .ok []
  | (fields, _) :: rest =>
    let first := filled header.length fields
    (levelled first.length rest).map (first :: ·)

/-- The words that stand for a missing value. -/
def missingWords : List String :=
  ["", "#N/A", "#N/A N/A", "#NA", "-1.#IND", "-1.#QNAN", "-NaN", "-nan", "1.#IND", "1.#QNAN",
    "<NA>", "N/A", "NA", "NULL", "NaN", "None", "n/a", "nan", "null"]

/-- A field as a cell. -/
def fieldCell {α : Type} (s : String) : Value α :=
  if missingWords.contains s then .absent else .text s

/-- The number of fields in front of those that the header names. -/
def indexLength (header : List String) (data : List (List String)) : Nat :=
  match data with
  | [] => 0
  | fields :: _ => fields.length - header.length

/-- The header and the data records of a text. A record that is too long is met before the end
of the text is. -/
def records (cs : List Char) : Except FieldFault (List String × List (List String)) := do
  let r := (withoutMark cs).foldl Reader.read Reader.initial
  let done := match r.finish with | .ok s => s | .error _ => r
  match done.records.reverse with
  | [] =>
    let _ ← r.finish
    throw .noColumns
  | (header, _) :: rest => do
    let data ← levelledData header rest
    let _ ← r.finish
    return (header, data)

/-- A name with the first number that tells it apart from other names. -/
def numbered (taken : List String) (name : String) : String :=
  let candidates := (List.range (taken.length + 1)).map fun k => name ++ "." ++ toString (k + 1)
  (candidates.find? fun c => !taken.contains c).getD name

/-- The names of columns after other columns. A name that a column before it has
is numbered. -/
def columnNames (header before : List String) : List String → List String
  | [] => []
  | name :: rest =>
    let own := if before.contains name then numbered (before ++ header) name else name
    own :: columnNames header (own :: before) rest

/-- The table of a text. -/
def table {α : Type} (s : String) : Except FieldFault (Table α) := do
  let (header, data) ← records s.toList
  let index := indexLength header data
  return ⟨columnNames header [] header, data.map fun fields => (fields.drop index).map fieldCell⟩

end Linkage.FieldReader
