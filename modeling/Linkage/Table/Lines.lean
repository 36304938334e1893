import Linkage.Json.Escape
import Linkage.Number.Shortest
import Linkage.Table.Basic
import Linkage.Value.Text

/-!
# Tables as lines of objects

A table is written one row per line, each row as an object on the names of the columns. Numbers
are written with at most ten decimal places and without zeros at their end, texts in Latin
characters with slashes escaped.
-/

namespace Linkage.Table

/-- A character inside quotation marks. -/
def lineChar (c : Char) : List Char :=
  if c = '/' then ['\\', '/']
  else if c.toNat = 127 then [c]
  else Json.escapedChar true c

/-- A text in quotation marks. -/
def lineText (s : String) : String :=
  String.ofList ('"' :: (s.toList.flatMap lineChar ++ ['"']))

/-- The largest number of decimal places. -/
def linePlaces : Nat := 10

/-- The digits of a fraction of ten places without zeros at their end, but at least one. -/
def fractionDigits (fraction : Nat) : List Char :=
  let digits := Nat.toDigits 10 fraction
  let filled := zeros (linePlaces - digits.length) ++ digits
  match (filled.reverse.dropWhile (· == '0')).reverse with
  | [] => ['0']
  | ds => ds

/-- The whole part of a non-negative number, and its fraction in units of the last place.
The fraction is scaled in floating point; a half goes to the even neighbour, and from
zero upwards. -/
def lineParts (x : Float) : Nat × Nat :=
  let whole := x.toUInt64.toNat
  let scaled := (x - Float.ofNat whole) * 10000000000
  let units := scaled.toUInt64.toNat
  let rest := scaled - Float.ofNat units
  let up := decide (0.5 < rest) || (rest == 0.5 && (units == 0 || units % 2 == 1))
  let rounded := if up then units + 1 else units
  if Nat.pow 10 linePlaces ≤ rounded then (whole + 1, 0) else (whole, rounded)

/-- A number with at most ten decimal places. -/
def lineNumber (x : Float) : String :=
  let (whole, fraction) := lineParts x.abs
  signed (decide (x < 0)) (Nat.toDigits 10 whole ++ '.' :: fractionDigits fraction)

/-- A cell inside an object. -/
def lineCell : Value Float → String
  | .null => "null"
  | .absent => "null"
  | .flag b => if b then "true" else "false"
  | .int n => toString n
  | .real x => if x.isNaN || x.isInf then "null" else lineNumber x
  | v => lineText v.plain

/-- A row as an object. -/
def lineObject (columns : List String) (row : List (Value Float)) : String :=
  "\x7b" ++ Text.join "," ((columns.zip row).map fun e => lineText e.1 ++ ":" ++ lineCell e.2) ++
    "\x7d\n"

/-- A table as lines of objects. A table without rows is an empty line. -/
def lines (t : Table Float) : String :=
  if t.rows.isEmpty then "\n" else Text.join "" (t.rows.map (lineObject t.columns))

end Linkage.Table
