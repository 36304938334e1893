/-!
# Padded numerals

Decimal numerals filled with zeros to a width, so that they line up and sort by value.
-/

namespace Linkage

/-- The decimal numeral of an integer, filled with zeros after the sign to a width. -/
def paddedNumeral (width : Nat) (n : Int) : String :=
  let digits := toString n.natAbs
  let sign := if n < 0 then "-" else ""
  sign ++ String.ofList (List.replicate (width - sign.length - digits.length) '0') ++ digits

end Linkage
