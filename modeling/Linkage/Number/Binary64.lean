import Linkage.Number.Word

/-!
# Floating point numbers as integers

A finite binary floating point number is an integer times a power of two. Every decimal text of
the library is computed from these two integers, without rounding on the way.
-/

namespace Linkage

/-- A floating point number **taken apart**. -/
inductive FloatParts where
  /-- Not a number. -/
  | undefined
  /-- An unbounded value. -/
  | infinite (negative : Bool)
  /-- The value `mantissa * 2 ^ exponent`, with a sign. -/
  | finite (negative : Bool) (mantissa : Nat) (exponent : Int)
  deriving DecidableEq, Repr

/-- The parts of a floating point number. -/
def FloatParts.ofFloat (x : Float) : FloatParts :=
  let bits : Nat := x.toBits.toNat
  let negative := decide (Word.half ≤ bits)
  let hidden := Nat.pow 2 52
  let biased := bits / hidden % Nat.pow 2 11
  let fraction := bits % hidden
  if biased = 2047 then (if fraction = 0 then infinite negative else undefined)
  else if biased = 0 then finite negative fraction (-1074)
  else finite negative (hidden + fraction) ((biased : Int) - 1075)

/-- The numerator and the denominator of `n * 2 ^ k`. -/
def scaleByTwo (n : Nat) (k : Int) : Nat × Nat := (n * Nat.pow 2 k.toNat, Nat.pow 2 (-k).toNat)

/-- The quotient of two natural numbers rounded to the nearest; a half goes to the even
neighbour. -/
def roundDiv (num den : Nat) : Nat :=
  let q := num / den
  let r := num % den
  if 2 * r < den then q
  else if den < 2 * r then q + 1
  else q + q % 2

/-- The number of decimal digits of a natural number; one for zero. -/
def digitCount (n : Nat) : Nat := (Nat.toDigits 10 n).length

end Linkage
