import Linkage.Number.PaddedNumeral

/-!
# Clocks

Hours, minutes, seconds and microseconds: a time of day, or a distance between two of them.
-/

namespace Linkage

/-- What a **clock** shows. -/
structure Clock where
  /-- The hours. -/
  hour : Nat
  /-- The minutes. -/
  minute : Nat
  /-- The seconds. -/
  second : Nat
  /-- The microseconds. -/
  micro : Nat
  deriving DecidableEq, Repr

namespace Clock

/-- The microseconds in a second. -/
def microsInSecond : Nat := 1000000

/-- The seconds in a day. -/
def secondsInDay : Nat := 86400

/-- The microseconds in a day. -/
def microsInDay : Nat := secondsInDay * microsInSecond

/-- The clock that shows a number of microseconds. -/
def ofMicros (n : Nat) : Clock :=
  let s := n / microsInSecond
  ⟨s / 3600, s / 60 % 60, s % 60, n % microsInSecond⟩

/-- The text of the hours and minutes of a clock. -/
def shortText (c : Clock) : String :=
  paddedNumeral 2 c.hour ++ ":" ++ paddedNumeral 2 c.minute

/-- The text of the fraction of a second: six places, or nothing when it is zero. -/
def fractionText (c : Clock) : String :=
  if c.micro = 0 then "" else "." ++ paddedNumeral 6 c.micro

/-- The text of a clock with its seconds. -/
def text (c : Clock) : String :=
  c.shortText ++ ":" ++ paddedNumeral 2 c.second ++ c.fractionText

/-- The text of a clock, with its seconds only where they or their fraction are not zero. -/
def briefText (c : Clock) : String :=
  if c.second = 0 ∧ c.micro = 0 then c.shortText else c.text

end Clock

end Linkage
