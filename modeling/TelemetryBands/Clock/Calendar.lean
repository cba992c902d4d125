/-!
# Days of the calendar

The Gregorian calendar from the year 0 on, carried back before its introduction. A date is counted
as days from the first of January 1970.
-/

namespace TelemetryBands

/-- A date as its year, month and day of the month. -/
structure CalendarDate where
  year : Nat
  month : Nat
  day : Nat
  deriving DecidableEq, Repr

namespace CalendarDate

/-- Whether a year has a 29th of February. -/
def isLeapYear (year : Nat) : Bool :=
  (year % 4 == 0 && year % 100 != 0) || year % 400 == 0

/-- The lengths of the months of a year. -/
def monthLengths (year : Nat) : List Nat :=
  [31, if isLeapYear year then 29 else 28, 31, 30, 31, 30, 31, 31, 30, 31, 30, 31]

/-- The number of leap years before a year, the year 0 included. -/
def leapYearsBefore (year : Nat) : Nat :=
  (year + 3) / 4 - (year + 99) / 100 + (year + 399) / 400

/-- Whether the calendar has a date. -/
def isValid (d : CalendarDate) : Bool :=
  1 ≤ d.month && 1 ≤ d.day && d.day ≤ ((monthLengths d.year)[d.month - 1]?).getD 0

/-- The days from the first of January of the year 0 to the first of January 1970. -/
def epochDay : Nat := 719528

/-- The number of days from the first of January 1970 to a date. -/
def dayNumber (d : CalendarDate) : Int :=
  let months := ((monthLengths d.year).take (d.month - 1)).foldl (· + ·) 0
  let before := 365 * d.year + leapYearsBefore d.year + months
  (before : Int) + d.day - 1 - epochDay

/-- The first of January 1970 is day zero. -/
theorem dayNumber_epoch : dayNumber ⟨1970, 1, 1⟩ = 0 := by decide

end CalendarDate

end TelemetryBands
