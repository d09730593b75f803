/-!
# The calendar

The proleptic Gregorian calendar: the rules of the years after 1582 applied to every year, year 0
and the years before it included.  Days are counted from 1 January of year 0, so that the
arithmetic of leap years needs no correction for the century the count begins in.

`Date.dayNumber` and `Date.ofDayNumber` are the two directions.  The second has to find the year a
day falls into: 400 years have exactly 146097 days, so dividing by their mean length is off by at
most one year either way, and one comparison with the first day of a year on each side settles it.
-/

set_option autoImplicit false

namespace Rpki

namespace Calendar

/-! ## Years and months -/

/-- Every fourth year is a leap year, except the full centuries that 400 does not divide. -/
def isLeap (year : Int) : Bool := year % 4 == 0 && (year % 100 != 0 || year % 400 == 0)

/-- The days from 1 January of year 0 to 1 January of the given year. -/
def daysBeforeYear (year : Int) : Int :=
  365 * year + (year + 3) / 4 - (year + 99) / 100 + (year + 399) / 400

/-- The lengths of the twelve months. -/
def monthLengths (leap : Bool) : List Nat :=
  [31, if leap then 29 else 28, 31, 30, 31, 30, 31, 31, 30, 31, 30, 31]

/-- The length of a month, counted from 1. -/
def daysInMonth (year : Int) (month : Nat) : Nat :=
  (monthLengths (isLeap year)).getD (month - 1) 0

/-- The days from the start of the year to the start of a month, counted from 1. -/
def daysBeforeMonth (year : Int) (month : Nat) : Nat :=
  ((monthLengths (isLeap year)).take (month - 1)).foldr (· + ·) 0

/-- The year that contains a day, counted from 1 January of year 0. -/
def yearOf (day : Int) : Int :=
  let guess := 400 * day / 146097
  if day < daysBeforeYear guess then guess - 1
  else if daysBeforeYear (guess + 1) ≤ day then guess + 1
  else guess

/-- Walks along months of the given lengths, the first of which has the number `month`, to the day
with the given number, counted from 0.  The answer is the month and the day in it, counted from
1. -/
def monthAndDay : List Nat → Nat → Nat → Nat × Nat
  | [], month, day => (month, day + 1)
  | length :: rest, month, day =>
    if day < length then (month, day + 1) else monthAndDay rest (month + 1) (day - length)

end Calendar

open Calendar

/-! ## Dates -/

/-- A date.  Only a valid one stands for a day. -/
structure Date where
  year : Int
  /-- Counted from 1. -/
  month : Nat
  /-- Counted from 1. -/
  day : Nat
deriving DecidableEq, Repr

namespace Date

/-- The month exists and has that day. -/
def Valid (d : Date) : Prop :=
  1 ≤ d.month ∧ d.month ≤ 12 ∧ 1 ≤ d.day ∧ d.day ≤ daysInMonth d.year d.month

instance (d : Date) : Decidable d.Valid := by unfold Valid; infer_instance

/-- The days from 1 January of year 0. -/
def dayNumber (d : Date) : Int :=
  daysBeforeYear d.year + daysBeforeMonth d.year d.month + d.day - 1

/-- The date of a day counted from 1 January of year 0. -/
def ofDayNumber (day : Int) : Date :=
  let year := yearOf day
  let (month, dayOfMonth) :=
    monthAndDay (monthLengths (isLeap year)) 1 (day - daysBeforeYear year).toNat
  ⟨year, month, dayOfMonth⟩

end Date

/-! ## Dates with a time of day -/

/-- A date and a time of day in whole seconds. -/
structure CivilTime extends Date where
  hour : Nat
  minute : Nat
  second : Nat
deriving DecidableEq, Repr

namespace CivilTime

/-- The date is valid and the time of day exists; no minute has more than sixty seconds. -/
def Valid (c : CivilTime) : Prop :=
  c.toDate.Valid ∧ c.hour < 24 ∧ c.minute < 60 ∧ c.second < 60

instance (c : CivilTime) : Decidable c.Valid := by unfold Valid; infer_instance

/-- The day the seconds are counted from, 1 January 1970. -/
def epoch : Int := 719528

/-- The seconds since the beginning of 1970, without leap seconds. -/
def toSeconds (c : CivilTime) : Int :=
  86400 * (c.toDate.dayNumber - epoch) + (3600 * c.hour + 60 * c.minute + c.second : Nat)

/-- The date and time of day of a number of seconds since the beginning of 1970. -/
def ofSeconds (seconds : Int) : CivilTime :=
  let day := seconds / 86400
  let rest := (seconds % 86400).toNat
  { toDate := Date.ofDayNumber (day + epoch)
    hour := rest / 3600
    minute := rest / 60 % 60
    second := rest % 60 }

end CivilTime

end Rpki
