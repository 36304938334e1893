/-!
# Scalars

Weights, couplings and thresholds are taken from a `Scalar` type. The library is written once
over any scalar: running programs use binary floating point, whose order has undefined values,
and exact reasoning uses the rational numbers.

A scalar is *undefined* when it does not compare with itself. The rationals have no undefined
scalar; floating point has the not-a-number values.
-/

namespace Linkage

/-- A **scalar type**: arithmetic, comparison, and the conversions the library needs. No law is
asked for, so a statement over every scalar type also holds for floating point. -/
class Scalar (α : Type)
    extends Zero α, Add α, Sub α, Mul α, Div α, NatCast α, BEq α, LE α, LT α where
  /-- Comparison is decided. -/
  decLe : (a b : α) → Decidable (a ≤ b)
  /-- Strict comparison is decided. -/
  decLt : (a b : α) → Decidable (a < b)
  /-- An integer as a scalar, when it is in range. -/
  ofInt? : Int → Option α
  /-- The largest natural number that is at most a non-negative scalar. -/
  floorNat : α → Nat
  /-- Whether a scalar is a whole number. -/
  isWhole : α → Bool
  /-- Whether a scalar is an unbounded value. -/
  isInfinite : α → Bool
  /-- The decimal fraction `m / 10 ^ k`. -/
  ofDecimal : Nat → Nat → α

namespace Scalar

variable {α : Type} [Scalar α]

instance instDecidableLe (a b : α) : Decidable (a ≤ b) := decLe a b

instance instDecidableLt (a b : α) : Decidable (a < b) := decLt a b

/-- A scalar is **undefined** when it does not compare with itself. -/
def isUndefined (x : α) : Bool := !decide (x ≤ x)

/-- Exact rational scalars. -/
instance : Scalar Rat where
  zero := Rat.ofInt 0
  decLe := inferInstance
  decLt := inferInstance
  ofInt? n := some (n : Rat)
  floorNat x := x.floor.toNat
  isWhole x := x.den == 1
  isInfinite _ := false
  ofDecimal m k := (m : Rat) / ((Nat.pow 10 k : Nat) : Rat)

/-- Binary floating point scalars. An integer whose nearest value is unbounded is out
of range. -/
instance : Scalar Float where
  natCast := Float.ofNat
  decLe := inferInstance
  decLt := inferInstance
  ofInt? n :=
    let x := Float.ofInt n
    if x.isInf then none else some x
  floorNat x := x.floor.toUInt64.toNat
  isWhole x := x.isFinite && x.floor == x
  isInfinite x := x.isInf
  ofDecimal m k := Float.ofScientific m true k

end Scalar

end Linkage
