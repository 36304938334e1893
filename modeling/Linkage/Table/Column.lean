import Linkage.Number.Reading
import Linkage.Number.Shortest
import Linkage.Number.Word
import Linkage.Value.Text

/-!
# Columns

The cells of a column are taken together. A column of numbers with a missing cell or a fraction
is a column of floating point numbers; a column with anything else keeps its cells as they are.
Where asked, texts that stand for numbers count as numbers, and a column of whole numbers holds
integers.

A cell is missing when it holds nothing, the mark of a missing cell, or an undefined number.
-/

namespace Linkage

/-- Whether a cell is missing. -/
def Value.isMissing {α : Type} [Scalar α] : Value α → Bool
  | null => true
  | absent => true
  | real x => Scalar.isUndefined x
  | cell _ (real x) => Scalar.isUndefined x
  | _ => false

namespace Column

/-- What the cells of a column have been so far. -/
structure Survey where
  /-- A cell held nothing. -/
  hasNull : Bool := false
  /-- A cell held a truth value. -/
  hasFlag : Bool := false
  /-- A cell held an undefined number. -/
  hasUndefined : Bool := false
  /-- A cell held a defined floating point number. -/
  hasReal : Bool := false
  /-- A cell held an integer. -/
  hasInt : Bool := false
  /-- An integer was negative. -/
  hasNegative : Bool := false
  /-- An integer needed all bits of a word. -/
  hasUnsigned : Bool := false
  /-- A cell held something that is no number, or an integer that fits no common word. -/
  isMixed : Bool := false
  /-- An integer was too large for a floating point number. -/
  isOutside : Bool := false

/-- The survey after one more cell. Nothing matters after the first cell that makes a column
mixed. -/
def Survey.add (s : Survey) (c : Value Float) : Survey :=
  if s.isMixed then s
  else match c with
  | .null => { s with hasNull := true }
  | .flag _ => { s with hasFlag := true }
  | .real x =>
    if x.isNaN then { s with hasUndefined := true } else { s with hasReal := true }
  | .int n =>
    let negative := s.hasNegative || decide (n < 0)
    let unsigned := s.hasUnsigned || decide ((Word.half : Int) ≤ n)
    { s with
      hasInt := true, hasNegative := negative, hasUnsigned := unsigned
      isOutside := s.isOutside || (Scalar.ofInt? n : Option Float).isNone
      isMixed := (negative && unsigned) || decide (n < -(Word.half : Int)) ||
        decide ((Word.count : Int) ≤ n) }
  | _ => { s with isMixed := true }

/-- The survey of a column. -/
def survey (cells : List (Value Float)) : Survey := cells.foldl Survey.add {}

/-- Whether a surveyed column holds floating point numbers. -/
def Survey.isReal (s : Survey) : Bool :=
  !s.isMixed && !s.hasFlag &&
    (s.hasReal || ((s.hasNull || s.hasUndefined) && (s.hasInt || s.hasUndefined)))

/-- A number as a floating point number. Anything else is undefined. -/
def toReal : Value Float → Value Float
  | .int n => .real (Float.ofInt n)
  | .real x => .real x
  | _ => .real (0 / 0)

/-- The cells of a column with its numbers made alike; `none` when one is out of range. -/
def unified? (cells : List (Value Float)) : Option (List (Value Float)) :=
  let s := survey cells
  if s.isOutside then none
  else if s.isReal then some (cells.map toReal)
  else some cells

/-- A cell as a floating point number, where texts that stand for numbers and truth values
count as well. -/
def numeric? : Value Float → Option Float
  | .null => some (0 / 0)
  | .real x => some x
  | .int n => Scalar.ofInt? n
  | .flag b => some (if b then 1 else 0)
  | .text s => readFloat? s
  | _ => none

/-- Whether a floating point number is an integer of 64 bits. -/
def isWord (x : Float) : Bool :=
  Scalar.isWhole x && decide (-9223372036854775808.0 ≤ x) && decide (x < 9223372036854775808.0)

/-- The integer that a whole number equals. -/
def integerOf (x : Float) : Int :=
  if x < 0 then -((-x).toUInt64.toNat : Int) else (x.toUInt64.toNat : Int)

/-- An integer, unless it is no word with a sign. -/
def inWord? (n : Int) : Option Int := if Word.isSigned n then some n else none

/-- A cell as a word with a sign, where texts that stand for integers and truth values count as
well. -/
def whole? : Value Float → Option Int
  | .int n => inWord? n
  | .real x => if isWord x then some (integerOf x) else none
  | .flag b => some (if b then 1 else 0)
  | .text s => (readInt? s).bind inWord?
  | _ => none

/-- Cells that stand for floating point numbers, as integers when every cell stands for an
integer and that is the same number. The integer is the one that the cell holds, even where no
floating point number equals it. -/
def narrowed (cells : List (Value Float)) (xs : List Float) : List (Value Float) :=
  match cells.mapM whole? with
  | some ns =>
    if (ns.zip xs).all fun p => Float.ofInt p.1 == p.2 then ns.map .int else xs.map .real
  | none => xs.map .real

/-- Whether all cells are truth values, or all are integers. -/
def isUniform (cells : List (Value Float)) : Bool :=
  (cells.all fun c => match c with | .flag _ => true | _ => false) ||
    ((cells.all fun c => match c with | .int _ => true | _ => false) && !(survey cells).isMixed)

/-- The cells of a column as numbers when all of them stand for numbers. -/
def converted (cells : List (Value Float)) : List (Value Float) :=
  if isUniform cells then cells
  else
    match cells.mapM numeric? with
    | some xs => narrowed cells xs
    | none => cells

end Column

end Linkage
