import Linkage.Number.Binary64

/-!
# Shortest decimal text

A floating point number is written with the fewest digits that read back to it, and among those
with the digits nearest to it. The numbers that read back to `m * 2 ^ q` form an interval, half
a unit of the last place wide on either side and less below a power of two; its ends belong to
it when `m` is even.

For each count of digits the two decimals next to the value are tried, and the first count with
a hit is taken.
-/

namespace Linkage

/-- A decimal number `digits * 10 ^ exponent`. -/
structure DecimalNumber where
  /-- The digits. -/
  digits : Nat
  /-- The power of ten of the last digit. -/
  exponent : Int
  deriving DecidableEq, Repr

/-- The precision of a binary format: the least mantissa with a leading bit, and the exponent
of its smallest numbers. -/
structure BinaryFormat where
  /-- The least mantissa of a number that has all its bits. -/
  hidden : Nat
  /-- The exponent of the smallest numbers. -/
  leastExponent : Int

/-- The format of double precision. -/
def BinaryFormat.double : BinaryFormat := ⟨Nat.pow 2 52, -1074⟩

/-- The format of single precision. -/
def BinaryFormat.single : BinaryFormat := ⟨Nat.pow 2 23, -149⟩

namespace Shortest

/-- The power of ten of the first digit of a positive fraction. -/
def leadingExponent (num den : Nat) : Int :=
  if den ≤ num then (digitCount (num / den) : Int) - 1
  else
    let t := digitCount (den / num)
    if den ≤ num * Nat.pow 10 (t - 1) then -((t - 1 : Nat) : Int) else -(t : Int)

/-- A positive fraction in quarter units of the last place, with the ends of its interval. -/
structure Interval where
  /-- The value. -/
  value : Nat
  /-- The lower end. -/
  lower : Nat
  /-- The upper end. -/
  upper : Nat
  /-- The common denominator of the three. -/
  den : Nat
  /-- Whether the ends read back to the value. -/
  closed : Bool

/-- The interval of the numbers that read back to `m * 2 ^ q`. -/
def interval (f : BinaryFormat) (m : Nat) (q : Int) : Interval :=
  let (unit, den) := scaleByTwo 1 (q - 2)
  let below := if m = f.hidden && decide (f.leastExponent < q) then 1 else 2
  ⟨4 * m * unit, (4 * m - below) * unit, (4 * m + 2) * unit, den, m % 2 == 0⟩

/-- Whether the fraction `num / den` lies in an interval. -/
def Interval.holds (i : Interval) (num den : Nat) : Bool :=
  if i.closed then
    decide (i.lower * den ≤ num * i.den) && decide (num * i.den ≤ i.upper * den)
  else decide (i.lower * den < num * i.den) && decide (num * i.den < i.upper * den)

/-- The numerator and the denominator of a decimal number. -/
def fraction (d : DecimalNumber) : Nat × Nat :=
  (d.digits * Nat.pow 10 d.exponent.toNat, Nat.pow 10 (-d.exponent).toNat)

/-- The better of the two decimals `n` and `n + 1` at a power of ten that lie around a value,
if one of them reads back to it. -/
def choose? (i : Interval) (n : Nat) (exponent : Int) : Option DecimalNumber :=
  let low : DecimalNumber := ⟨n, exponent⟩
  let high : DecimalNumber := ⟨n + 1, exponent⟩
  let lowHolds := decide (0 < n) && i.holds (fraction low).1 (fraction low).2
  let highHolds := i.holds (fraction high).1 (fraction high).2
  if lowHolds && highHolds then
    -- Twice the value against the sum of the two decimals.
    let (s, d) := fraction ⟨2 * n + 1, exponent⟩
    let twice := 2 * i.value * d
    let sum := s * i.den
    if twice < sum then some low
    else if sum < twice then some high
    else some (if n % 2 = 0 then low else high)
  else if lowHolds then some low
  else if highHolds then some high
  else none

/-- The decimal at a count of digits, if one of the two next to the value reads back to it. -/
def atCount? (i : Interval) (leading : Int) (count : Nat) : Option DecimalNumber :=
  let exponent := leading - (count : Int) + 1
  let (p, d) := fraction ⟨1, exponent⟩
  choose? i (i.value * d / (i.den * p)) exponent

/-- A decimal number without zeros at its end; `fuel` bounds their number. -/
def stripZeros : Nat → DecimalNumber → DecimalNumber
  | 0, d => d
  | fuel + 1, d =>
    if d.digits ≠ 0 ∧ d.digits % 10 = 0 then stripZeros fuel ⟨d.digits / 10, d.exponent + 1⟩
    else d

/-- The shortest decimal that reads back to `m * 2 ^ q`. -/
def decimal (f : BinaryFormat) (m : Nat) (q : Int) : DecimalNumber :=
  if m = 0 then ⟨0, 0⟩
  else
    let i := interval f m q
    let leading := leadingExponent i.value i.den
    match (List.range' 1 17).findSome? (atCount? i leading) with
    | some d => stripZeros 20 d
    | none => ⟨i.value / i.den, 0⟩

end Shortest

/-- The **spelling of a floating point number**: which numbers are written without an exponent,
and the words for the special values. -/
structure NumberSpelling where
  /-- Numbers from `10 ^ leastPlain` on are written without an exponent. -/
  leastPlain : Int
  /-- Numbers below `10 ^ greatestPlain` are written without an exponent. -/
  greatestPlain : Int
  /-- The word for an undefined number. -/
  undefined : String
  /-- The word for the unbounded positive value. -/
  infinite : String

namespace NumberSpelling

/-- The spelling of numbers in reports and tables. -/
def report : NumberSpelling := ⟨-4, 16, "nan", "inf"⟩

/-- The spelling of numbers in documents of objects and lists. -/
def document : NumberSpelling := ⟨-4, 16, "NaN", "Infinity"⟩

end NumberSpelling

/-- A list of zeros. -/
def zeros (n : Nat) : List Char := List.replicate n '0'

/-- An exponent with its sign and at least two digits. -/
def exponentText (e : Int) : List Char :=
  let digits := Nat.toDigits 10 e.natAbs
  (if e < 0 then '-' else '+') :: (zeros (2 - digits.length) ++ digits)

/-- A decimal number without exponent, with at least one digit on either side of the point. -/
def plainText (digits : List Char) (point : Int) : List Char :=
  if point ≤ 0 then '0' :: '.' :: (zeros (-point).toNat ++ digits)
  else if (digits.length : Int) ≤ point then
    digits ++ zeros (point.toNat - digits.length) ++ ['.', '0']
  else digits.take point.toNat ++ '.' :: digits.drop point.toNat

/-- A decimal number with one digit before the point and an exponent. -/
def exponentialText (digits : List Char) (point : Int) : List Char :=
  match digits with
  | [] => []
  | d :: [] => d :: 'e' :: exponentText (point - 1)
  | d :: rest => d :: '.' :: (rest ++ 'e' :: exponentText (point - 1))

/-- The number of digits of a decimal number before its point. -/
def pointOf (d : DecimalNumber) : Int := ((Nat.toDigits 10 d.digits).length : Int) + d.exponent

/-- A decimal number with or without an exponent; zero has none. -/
def decimalText (isPlain : Bool) (d : DecimalNumber) : List Char :=
  if d.digits = 0 then ['0', '.', '0']
  else if isPlain then plainText (Nat.toDigits 10 d.digits) (pointOf d)
  else exponentialText (Nat.toDigits 10 d.digits) (pointOf d)

/-- Whether a decimal number is written without an exponent. -/
def NumberSpelling.isPlain (s : NumberSpelling) (d : DecimalNumber) : Bool :=
  decide (s.leastPlain < pointOf d ∧ pointOf d ≤ s.greatestPlain)

/-- A sign and a text. -/
def signed (negative : Bool) (text : List Char) : String :=
  String.ofList (if negative then '-' :: text else text)

/-- The shortest text of a floating point number in a spelling. -/
def NumberSpelling.text (s : NumberSpelling) (x : Float) : String :=
  match FloatParts.ofFloat x with
  | .undefined => s.undefined
  | .infinite negative => signed negative s.infinite.toList
  | .finite negative m q =>
    let d := Shortest.decimal .double m q
    signed negative (decimalText (s.isPlain d) d)

/-- Whether a number of single precision is written without an exponent. Its value decides, and
not its digits. -/
def isPlainSingle (x : Float) : Bool := decide (0.0001 ≤ x.abs) && decide (x.abs < 1000000)

/-- The shortest text of a number of single precision, given in double precision. -/
def NumberSpelling.singleText (s : NumberSpelling) (x : Float) : String :=
  match FloatParts.ofFloat x with
  | .undefined => s.undefined
  | .infinite negative => signed negative s.infinite.toList
  | .finite negative m q =>
    let shift := max 29 (BinaryFormat.single.leastExponent - q).toNat
    let d := Shortest.decimal .single (m / Nat.pow 2 shift) (q + (shift : Int))
    signed negative (decimalText (isPlainSingle x) d)

/-- The shortest text of a floating point number in reports. -/
def shortest (x : Float) : String := NumberSpelling.report.text x

end Linkage
