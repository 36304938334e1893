import Linkage.Number.PaddedNumeral

/-!
# Calendar dates

The days of the calendar, numbered in order.

## Calendar convention

Years are counted from the first of March of the year 0, so that a leap day ends its year. The
calendar repeats after a cycle of 400 years, which is 146097 days.
-/

namespace Linkage

/-- A date of the calendar. -/
structure CalendarDate where
  /-- The year. -/
  year : Nat
  /-- The month, from 1 to 12. -/
  month : Nat
  /-- The day of the month, from 1. -/
  day : Nat
  deriving DecidableEq, Repr

namespace CalendarDate

/-- The days from the first of March of the year 0 to the first of January of 1970. -/
def daysBefore1970 : Nat := 719468

/-- The days in a cycle of 400 years. -/
def daysInCycle : Nat := 146097

/-- The whole years among the first days of a cycle. -/
def wholeYears (days : Nat) : Nat := (days - days / 1460 + days / 36524 - days / 146096) / 365

/-- The days in the first years of a cycle. -/
def daysIn (years : Nat) : Nat := 365 * years + years / 4 - years / 100

/-- The days before a month, counted from March as month 0. -/
def daysBeforeMonth (month : Nat) : Nat := (153 * month + 2) / 5

/-- The date that lies a number of days after the first of March of the year 0. -/
def ofDayNumber (day : Nat) : CalendarDate :=
  let inCycle := day % daysInCycle
  let years := wholeYears inCycle
  let inYear := inCycle - daysIn years
  let month := (5 * inYear + 2) / 153
  let year := 400 * (day / daysInCycle) + years
  { year := if month < 10 then year else year + 1
    month := if month < 10 then month + 3 else month - 9
    day := inYear - daysBeforeMonth month + 1 }

/-- The date that lies a number of days after the first of January of 1970. -/
def ofDays (days : Nat) : CalendarDate := ofDayNumber (days + daysBefore1970)

/-- The text of a date: year, month and day. -/
def text (d : CalendarDate) : String :=
  paddedNumeral 4 d.year ++ "-" ++ paddedNumeral 2 d.month ++ "-" ++ paddedNumeral 2 d.day

end CalendarDate

end Linkage
