import Linkage.Number.Shortest

/-!
# A fixed number of decimal places

Texts and roundings to a fixed number of decimal places. Both round the exact binary value, a
half to the even neighbour, and both keep the sign of a number that rounds to zero.
-/

namespace Linkage

/-- The value `m * 2 ^ q` in units of `10 ^ -places`, rounded. -/
def scaledPlaces (places m : Nat) (q : Int) : Nat :=
  let (num, den) := scaleByTwo (m * Nat.pow 10 places) q
  roundDiv num den

/-- A number of units of `10 ^ -places` with the point in its place. -/
def placesText (places units : Nat) : List Char :=
  if places = 0 then Nat.toDigits 10 units
  else
    let fraction := Nat.toDigits 10 (units % Nat.pow 10 places)
    Nat.toDigits 10 (units / Nat.pow 10 places) ++
      '.' :: (zeros (places - fraction.length) ++ fraction)

/-- The text of a number with a fixed number of decimal places. -/
def fixedPlaces (places : Nat) (x : Float) : String :=
  match FloatParts.ofFloat x with
  | .undefined => "nan"
  | .infinite negative => signed negative "inf".toList
  | .finite negative m q => signed negative (placesText places (scaledPlaces places m q))

/-- A share as a percentage with a fixed number of decimal places. -/
def percentage (places : Nat) (x : Float) : String := fixedPlaces places (x * 100) ++ "%"

/-- The floating point number nearest to a decimal fraction, with a sign. -/
def ofUnits (negative : Bool) (places units : Nat) : Float :=
  let x := Float.ofScientific units true places
  if negative then -x else x

/-- A number rounded to a fixed number of decimal places. -/
def roundPlaces (places : Nat) (x : Float) : Float :=
  match FloatParts.ofFloat x with
  | .finite negative m q =>
    if 0 ≤ q then x else ofUnits negative places (scaledPlaces places m q)
  | _ => x

end Linkage
