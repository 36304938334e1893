import Linkage.Json.Units
import Linkage.Number.Reading
import Linkage.OrderedMap
import Linkage.Value.Basic

/-!
# Reading documents

A text is read as a value: objects, lists, texts, numbers, truth values and null, with the
words for undefined and infinite numbers. Controls inside a text have to be escaped, and a
number has no needless zeros. A name that occurs twice in an object keeps its first place and
its last value.

Lists and objects may be nested within each other so many levels deep as the reader is told. A
text that goes deeper and a number of too many digits are each refused for themselves, and
every other departure from the grammar is one failure.
-/

namespace Linkage.Json

/-- Why a text is no document. -/
inductive ReadError where
  /-- The text departs from the grammar. -/
  | malformed
  /-- A whole number has too many digits. -/
  | tooLong (digits : Nat)
  /-- Lists and objects are nested too deep. -/
  | tooDeep
  deriving DecidableEq, Repr

/-- A part of a document that has been read, and what follows it. -/
abbrev ReadStep (β : Type) := Except ReadError (β × List Char)

/-- Whether a character may stand between the parts of a document. -/
def isSpace (c : Char) : Bool := c == ' ' || c == '\t' || c == '\n' || c == '\r'

/-- What follows the blanks at the beginning. -/
def skipSpace (cs : List Char) : List Char := cs.dropWhile isSpace

/-- The number of the character that a letter after a backslash stands for. -/
def escapeUnit? (c : Char) : Option Nat :=
  if c = '"' ∨ c = '\\' ∨ c = '/' then some c.toNat
  else if c = 'b' then some 8
  else if c = 'f' then some 12
  else if c = 'n' then some 10
  else if c = 'r' then some 13
  else if c = 't' then some 9
  else none

/-- The numbers of the characters up to the closing quotation mark. -/
def textUnits : List Char → ReadStep (List Nat)
  | [] => .error .malformed
  | '"' :: rest => .ok ([], rest)
  | '\\' :: 'u' :: a :: b :: c :: d :: rest =>
    match hexUnit? a b c d with
    | none => .error .malformed
    | some n => (textUnits rest).map fun r => (n :: r.1, r.2)
  | '\\' :: c :: rest =>
    match escapeUnit? c with
    | none => .error .malformed
    | some n => (textUnits rest).map fun r => (n :: r.1, r.2)
  | c :: rest =>
    if c.toNat < 32 ∨ c = '\\' then .error .malformed
    else (textUnits rest).map fun r => (c.toNat :: r.1, r.2)

/-- The text up to the closing quotation mark. -/
def textBody (cs : List Char) : ReadStep String :=
  (textUnits cs).map fun r => (String.ofList (joined r.1), r.2)

/-- The value of a row of Latin digits. -/
def digitsValue (ds : List Char) : Nat := ds.foldl (fun n d => 10 * n + (d.toNat - 48)) 0

/-- The whole part of a number: a zero, or digits of which the first is no zero. -/
def wholeDigits : List Char → List Char × List Char
  | '0' :: rest => (['0'], rest)
  | cs => (cs.takeWhile Char.isDigit, cs.dropWhile Char.isDigit)

/-- The digits after a point, when there are any. -/
def fractionPart (cs : List Char) : List Char × List Char :=
  match cs with
  | '.' :: rest =>
    match rest.takeWhile Char.isDigit with
    | [] => ([], cs)
    | ds => (ds, rest.dropWhile Char.isDigit)
  | _ => ([], cs)

/-- The exponent after its mark, when it has digits. -/
def exponentPart (cs : List Char) : Option Int × List Char :=
  match cs with
  | c :: rest =>
    if c = 'e' ∨ c = 'E' then
      let (negative, after) := Reading.sign rest
      match after.takeWhile Char.isDigit with
      | [] => (none, cs)
      | ds =>
        let n : Int := digitsValue ds
        (some (if negative then -n else n), after.dropWhile Char.isDigit)
    else (none, cs)
  | [] => (none, [])

/-- A number after its sign: a whole number unless it has a fraction or an exponent. -/
def numberBody (negative : Bool) (cs : List Char) : ReadStep (Value Float) :=
  match wholeDigits cs with
  | ([], _) => .error .malformed
  | (whole, rest) =>
    let (fraction, rest) := fractionPart rest
    let (exponent, rest) := exponentPart rest
    if fraction.isEmpty && exponent.isNone then
      if maxIntegerDigits < whole.length then .error (.tooLong whole.length)
      else
        let n : Int := digitsValue whole
        .ok (.int (if negative then -n else n), rest)
    else
      .ok (.real (nearestFloat negative (digitsValue (whole ++ fraction))
        (exponent.getD 0 - (fraction.length : Int))), rest)

/-- What follows a word at the beginning. -/
def afterWord? (word : String) (cs : List Char) : Option (List Char) :=
  if word.toList.isPrefixOf cs then some (cs.drop word.length) else none

/-- The words of documents and the values they stand for. -/
def words : List (String × Value Float) :=
  [("null", .null), ("true", .flag true), ("false", .flag false), ("NaN", .real (0 / 0)),
    ("Infinity", .real (1 / 0)), ("-Infinity", .real (-(1 / 0)))]

/-- A value that is neither a text nor has parts. -/
def plainValue (cs : List Char) : ReadStep (Value Float) :=
  match words.findSome? fun w => (afterWord? w.1 cs).map fun rest => (w.2, rest) with
  | some r => .ok r
  | none =>
    match cs with
    | '-' :: rest => numberBody true rest
    | _ => numberBody false cs

mutual

/-- A value at the beginning of a text. The first number bounds the steps; the second one is
the number of levels that lists and objects may be nested. -/
def readValue : Nat → Nat → List Char → Except ReadError (Value Float × List Char)
  | 0, _, _ => .error .malformed
  | steps + 1, levels, cs =>
    match cs with
    | '"' :: rest => (textBody rest).map fun r => (.text r.1, r.2)
    | '[' :: rest =>
      match levels with
      | 0 => .error .tooDeep
      | levels + 1 =>
        match skipSpace rest with
        | ']' :: after => .ok (.list [], after)
        | after => (readItems steps levels after).map fun r => (.list r.1, r.2)
    | '\x7b' :: rest =>
      match levels with
      | 0 => .error .tooDeep
      | levels + 1 =>
        match skipSpace rest with
        | '\x7d' :: after => .ok (.record [], after)
        | after =>
          (readFields steps levels OrderedMap.empty after).map fun r => (.record r.1.entries, r.2)
    | _ => plainValue cs

/-- The items of a list up to its closing bracket. -/
def readItems : Nat → Nat → List Char → Except ReadError (List (Value Float) × List Char)
  | 0, _, _ => .error .malformed
  | steps + 1, levels, cs => do
    let (v, rest) ← readValue steps levels cs
    match skipSpace rest with
    | ']' :: after => .ok ([v], after)
    | ',' :: after => (readItems steps levels (skipSpace after)).map fun r => (v :: r.1, r.2)
    | _ => .error .malformed

/-- The fields of an object up to its closing brace, stored one after the other. -/
def readFields : Nat → Nat → OrderedMap String (Value Float) → List Char →
    Except ReadError (OrderedMap String (Value Float) × List Char)
  | 0, _, _, _ => .error .malformed
  | steps + 1, levels, held, cs => do
    match cs with
    | '"' :: rest => do
      let (name, rest) ← textBody rest
      match skipSpace rest with
      | ':' :: after => do
        let (v, rest) ← readValue steps levels (skipSpace after)
        let held := held.insert name v
        match skipSpace rest with
        | '\x7d' :: after => .ok (held, after)
        | ',' :: after => readFields steps levels held (skipSpace after)
        | _ => .error .malformed
      | _ => .error .malformed
    | _ => .error .malformed

end

/-- The document of a text that holds nothing else, with a number of levels of nesting. -/
def readChars (levels : Nat) (cs : List Char) : Except ReadError (Value Float) := do
  let (v, rest) ← readValue (2 * cs.length + 2) levels (skipSpace cs)
  if (skipSpace rest).isEmpty then .ok v else .error .malformed

end Linkage.Json
