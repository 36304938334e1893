import Linkage.Time.CalendarDate
import Linkage.Time.Clock

/-!
# Timestamps

A date, a time of day, and the distance of that time from universal time. A timestamp is
written with seconds, and with six places when there is a fraction of a second.
-/

namespace Linkage

/-- A **timestamp**: a date, a time of day, and the distance from universal time. -/
structure Timestamp where
  /-- The date. -/
  date : CalendarDate
  /-- The time of day. -/
  time : Clock
  /-- The distance from universal time in microseconds, if it is known. -/
  offset : Option Int
  deriving DecidableEq, Repr

namespace Timestamp

/-- The timestamp of universal time for the microseconds since 1970 began. -/
def ofMicros (n : Nat) : Timestamp :=
  { date := CalendarDate.ofDays (n / Clock.microsInDay)
    time := Clock.ofMicros (n % Clock.microsInDay)
    offset := some 0 }

/-- The text of a distance from universal time. -/
def offsetText (n : Int) : String :=
  (if n < 0 then "-" else "+") ++ (Clock.ofMicros n.natAbs).briefText

/-- The text of a timestamp. -/
def text (t : Timestamp) : String :=
  t.date.text ++ "T" ++ t.time.text ++ (t.offset.map offsetText).getD ""

end Timestamp

end Linkage
