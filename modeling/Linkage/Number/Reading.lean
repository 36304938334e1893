import Linkage.Text.Blank
import Linkage.Text.DecimalDigit

/-!
# Reading numbers

Numbers are read from text in a lenient way: blanks around a number are skipped, the digits of
every script count, and an underscore may stand between two digits. The nearest floating point
number is taken; one that is too large is unbounded.
-/

namespace Linkage

/-- The value of a row of decimal digits. -/
def ofDigits (ds : List Nat) : Nat := ds.foldl (fun n d => 10 * n + d) 0

/-- The floating point number nearest to `mantissa * 10 ^ exponent`, with a sign. Far outside
the range of the format the power of ten is not computed. -/
def nearestFloat (negative : Bool) (mantissa : Nat) (exponent : Int) : Float :=
  let magnitude : Int := (Nat.toDigits 10 mantissa).length + exponent
  let x : Float :=
    if mantissa = 0 || decide (magnitude < -400) then 0
    else if 400 < magnitude then 1 / 0
    else if exponent < 0 then Float.ofScientific mantissa true exponent.natAbs
    else Float.ofScientific mantissa false exponent.natAbs
  if negative then -x else x

namespace Reading

/-- A character of a number in the basic Latin block: a digit of any script is replaced by its
Latin digit and a blank of any script by the space. -/
def latin (c : Char) : Char :=
  if c.toNat < 128 then c
  else if Text.isBlank c then ' '
  else
    match Text.decimalValue? c with
    | some d => Char.ofNat (48 + d)
    | none => '?'

/-- Whether a character of the basic Latin block may stand around a number. -/
def isAround (c : Char) : Bool := c == ' ' || (decide (9 ≤ c.toNat) && decide (c.toNat ≤ 13))

/-- A text in the basic Latin block without the blanks around it. -/
def bare (s : String) : List Char :=
  (((s.toList.map latin).dropWhile isAround).reverse.dropWhile isAround).reverse

/-- The value of a Latin digit. -/
def digit? (c : Char) : Option Nat := if c.isDigit then some (c.toNat - 48) else none

/-- The digits after a first one, with single underscores between them, and what follows. -/
def moreDigits : List Char → List Nat × List Char
  | '_' :: c :: rest =>
    match digit? c with
    | some d => let (ds, after) := moreDigits rest; (d :: ds, after)
    | none => ([], '_' :: c :: rest)
  | c :: rest =>
    match digit? c with
    | some d => let (ds, after) := moreDigits rest; (d :: ds, after)
    | none => ([], c :: rest)
  | [] => ([], [])

/-- A row of digits and what follows; no digits when the text does not begin with one. -/
def digits (cs : List Char) : List Nat × List Char :=
  match cs with
  | c :: rest =>
    match digit? c with
    | some d => let (ds, after) := moreDigits rest; (d :: ds, after)
    | none => ([], cs)
  | [] => ([], [])

/-- A sign and what follows it. -/
def sign (cs : List Char) : Bool × List Char :=
  match cs with
  | '-' :: rest => (true, rest)
  | '+' :: rest => (false, rest)
  | _ => (false, cs)

/-- The exponent at the end of a number: none, or a mark with at least one digit. -/
def exponent? (cs : List Char) : Option Int :=
  match cs with
  | [] => some 0
  | c :: rest =>
    if c = 'e' || c = 'E' then
      let (negative, rest) := sign rest
      match digits rest with
      | ([], _) => none
      | (ds, []) => some (if negative then -(ofDigits ds : Int) else (ofDigits ds : Int))
      | _ => none
    else none

/-- The words for special numbers. -/
def special? (cs : List Char) : Option Float :=
  let word := String.ofList (cs.map Char.toLower)
  if word == "inf" || word == "infinity" then some (1 / 0)
  else if word == "nan" then some (0 / 0)
  else none

/-- A number without sign. -/
def unsigned? (negative : Bool) (cs : List Char) : Option Float :=
  match special? cs with
  | some x => some (if negative then -x else x)
  | none =>
    let (whole, rest) := digits cs
    let (fraction, rest) :=
      match rest with
      | '.' :: rest => digits rest
      | _ => ([], rest)
    if whole.isEmpty && fraction.isEmpty then none
    else
      (exponent? rest).map fun e =>
        nearestFloat negative (ofDigits (whole ++ fraction)) (e - (fraction.length : Int))

end Reading

/-- The floating point number that a text stands for. -/
def readFloat? (s : String) : Option Float :=
  let (negative, rest) := Reading.sign (Reading.bare s)
  Reading.unsigned? negative rest

/-- The most digits of an integer that is read. -/
def maxIntegerDigits : Nat := 4300

/-- The integer that a text stands for. -/
def readInt? (s : String) : Option Int :=
  let (negative, rest) := Reading.sign (Reading.bare s)
  match Reading.digits rest with
  | ([], _) => none
  | (ds, []) =>
    if maxIntegerDigits < ds.length then none
    else some (if negative then -(ofDigits ds : Int) else (ofDigits ds : Int))
  | _ => none

end Linkage
