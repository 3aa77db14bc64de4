/-!
# Dates

Dates of the Gregorian calendar, carried on without end into the past; the year before year 1 is
year 0.  `Date.dayNumber` counts days from the first of January 1970.
-/

namespace QuerySteps.Calendar

/-- A year, a month and a day, not necessarily of the calendar. -/
structure Date where
  year : Int
  month : Nat
  day : Nat
  deriving DecidableEq, Inhabited

/-- Whether a year has a leap day. -/
def isLeap (year : Int) : Bool :=
  year % 4 == 0 && (year % 100 != 0 || year % 400 == 0)

/-- The number of days of a month; a month that does not exist has none. -/
def monthLength (year : Int) (month : Nat) : Nat :=
  match month with
  | 1 | 3 | 5 | 7 | 8 | 10 | 12 => 31
  | 4 | 6 | 9 | 11 => 30
  | 2 => if isLeap year then 29 else 28
  | _ => 0

/-- The years that dates may have. -/
def yearInRange (year : Int) : Bool :=
  -262143 ≤ year && year ≤ 262142

/-- Whether the calendar has the date. -/
def Date.isValid (d : Date) : Bool :=
  yearInRange d.year && 1 ≤ d.day && d.day ≤ monthLength d.year d.month

/-- The number of leap years from year 0 up to the year before the given one; years before year 0
count negatively. -/
def leapYearsBefore (year : Int) : Int :=
  (year + 3) / 4 - (year + 99) / 100 + (year + 399) / 400

/-- The days from the first day of year 0 to the first day of a year. -/
def daysBeforeYear (year : Int) : Int :=
  365 * year + leapYearsBefore year

/-- The days of a year before the first day of a month. -/
def daysBeforeMonth (year : Int) : Nat → Nat
  | 0 => 0
  | 1 => 0
  | month + 2 => daysBeforeMonth year (month + 1) + monthLength year (month + 1)

/-- The days from the first of January 1970 to a date. -/
def Date.dayNumber (d : Date) : Int :=
  daysBeforeYear d.year - daysBeforeYear 1970 + daysBeforeMonth d.year d.month + (d.day - 1 : Nat)

end QuerySteps.Calendar
