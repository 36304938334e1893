import Linkage.Scalar

/-!
# Extended rational numbers

Exact scalars beside the rational numbers: a rational number, one of two unbounded values, or
an undefined value. They keep what is particular about the order of floating point, thresholds
that everything or nothing reaches and values that compare with nothing, and leave out
rounding.
-/

namespace Linkage

/-- An **extended rational number**. -/
inductive Extended where
  /-- A rational number. -/
  | finite (value : Rat)
  /-- The value below or above all rational numbers. -/
  | unbounded (negative : Bool)
  /-- The value that compares with nothing. -/
  | undefined
  deriving DecidableEq, Repr

namespace Extended

/-- The sum; undefined for unbounded values of different signs. -/
def add : Extended → Extended → Extended
  | finite a, finite b => finite (a + b)
  | unbounded s, finite _ => unbounded s
  | finite _, unbounded s => unbounded s
  | unbounded s, unbounded t => if s = t then unbounded s else undefined
  | undefined, _ => undefined
  | _, undefined => undefined

/-- The number of the opposite sign. -/
def neg : Extended → Extended
  | finite a => finite (-a)
  | unbounded s => unbounded !s
  | undefined => undefined

/-- An unbounded value times a rational number; undefined for zero. -/
def scale (negative : Bool) (a : Rat) : Extended :=
  if a = 0 then undefined else unbounded (negative ^^ decide (a < 0))

/-- The product. -/
def mul : Extended → Extended → Extended
  | finite a, finite b => finite (a * b)
  | unbounded s, finite b => scale s b
  | finite a, unbounded t => scale t a
  | unbounded s, unbounded t => unbounded (s ^^ t)
  | undefined, _ => undefined
  | _, undefined => undefined

/-- The quotient; undefined for a zero divisor and for two unbounded values. -/
def div : Extended → Extended → Extended
  | finite a, finite b => if b = 0 then undefined else finite (a / b)
  | unbounded s, finite b => scale s b
  | finite _, unbounded _ => finite 0
  | unbounded _, unbounded _ => undefined
  | undefined, _ => undefined
  | _, undefined => undefined

/-- Whether one number is at most another. -/
def atMost : Extended → Extended → Bool
  | undefined, _ => false
  | _, undefined => false
  | unbounded true, _ => true
  | _, unbounded false => true
  | finite a, finite b => decide (a ≤ b)
  | _, _ => false

/-- Whether two numbers are the same; the undefined value is not the same as itself. -/
def same (a b : Extended) : Bool := a.atMost b && b.atMost a

/-- Extended rational scalars. -/
instance : Scalar Extended where
  zero := finite 0
  add := add
  sub a b := add a b.neg
  mul := mul
  div := div
  natCast n := finite n
  beq := same
  le a b := a.atMost b = true
  lt a b := (a.atMost b && !a.same b) = true
  decLe _ _ := inferInstance
  decLt _ _ := inferInstance
  ofInt? n := some (finite n)
  floorNat
    | finite a => a.floor.toNat
    | _ => 0
  isWhole
    | finite a => a.den == 1
    | _ => false
  isInfinite
    | unbounded _ => true
    | _ => false
  ofDecimal m k := finite ((m : Rat) / ((Nat.pow 10 k : Nat) : Rat))

end Extended

end Linkage
