import Rpki.Calendar
import Rpki.Decimal

/-!
# Times

A time is a number of whole seconds since the beginning of 1970 and a fraction in nanoseconds,
anywhere in the years -262143 to 262142.  The fraction is kept apart because most of the library
works in whole seconds: the texts that are shown drop it, and so does the transfer form.

A fraction of a full second or more is a **leap second**.  It belongs to the last second of a
minute and comes after every ordinary fraction of it, which makes the order of times the
lexicographic order of the two parts.  Leap seconds cannot be made from a date or from a count of
seconds; they come only with a text that writes the second as 60.
-/

set_option autoImplicit false

namespace Rpki

/-- A point in time. -/
structure Time where
  /-- The seconds since the beginning of 1970. -/
  seconds : Int
  /-- The fraction in nanoseconds, 10⁹ and more in a leap second. -/
  nanos : Nat
  /-- No time is before the year -262143. -/
  first_le : -8334601228800 ≤ seconds
  /-- No time is after the year 262142. -/
  le_last : seconds ≤ 8210266876799
  /-- A leap second can only follow the last second of a minute. -/
  nanos_lt : nanos < 1000000000 ∨ (nanos < 2000000000 ∧ seconds % 60 = 59)
deriving DecidableEq

namespace Time

/-! ## Order -/

/-- Earlier by the seconds, and within one second by the fraction. -/
protected def lt (a b : Time) : Prop :=
  a.seconds < b.seconds ∨ (a.seconds = b.seconds ∧ a.nanos < b.nanos)

instance : LT Time := ⟨Time.lt⟩

instance (a b : Time) : Decidable (a < b) :=
  inferInstanceAs (Decidable (a.seconds < b.seconds ∨ (a.seconds = b.seconds ∧ a.nanos < b.nanos)))

instance : LE Time := ⟨fun a b ↦ ¬ b < a⟩

instance (a b : Time) : Decidable (a ≤ b) := inferInstanceAs (Decidable (¬ b < a))

/-! ## Making times -/

/-- The time with the given parts, if there is one. -/
def ofParts? (seconds : Int) (nanos : Nat) : Option Time :=
  if h : -8334601228800 ≤ seconds ∧ seconds ≤ 8210266876799 ∧
      (nanos < 1000000000 ∨ (nanos < 2000000000 ∧ seconds % 60 = 59)) then
    some ⟨seconds, nanos, h.1, h.2.1, h.2.2⟩
  else
    none

/-- The time a number of whole seconds after the beginning of 1970. -/
def ofSeconds? (seconds : Int) : Option Time := ofParts? seconds 0

/-- The time a number of nanoseconds after the beginning of 1970. -/
def ofNanos? (nanos : Int) : Option Time :=
  ofParts? (nanos / 1000000000) (nanos % 1000000000).toNat

/-- The time a number of milliseconds after the beginning of 1970. -/
def ofMillis? (millis : Int) : Option Time := ofNanos? (1000000 * millis)

/-- The time of a date and time of day, if these exist and are in the range of times. -/
def ofCivil? (c : CivilTime) : Option Time := if c.Valid then ofSeconds? c.toSeconds else none

/-! ## Parts of times -/

/-- The date and time of day of the whole second.  For a leap second it is the second before. -/
def civil (t : Time) : CivilTime := CivilTime.ofSeconds t.seconds

/-- The time without its fraction.  A leap second loses the fraction behind it and stays one. -/
def truncated (t : Time) : Time :=
  ⟨t.seconds, t.nanos / 1000000000 * 1000000000, t.first_le, t.le_last, by
    have := t.nanos_lt
    omega⟩

/-- The whole second a time is in, with nothing kept of its fraction.  A leap second becomes the
ordinary second before it. -/
def wholeSecond (t : Time) : Time := ⟨t.seconds, 0, t.first_le, t.le_last, by omega⟩

/-! ## Arithmetic -/

/-- The time a number of nanoseconds later, if it is in the range of times.

A leap second is on no ordinary scale, so it has rules of its own: a sum that stays inside it or in
the second before keeps its whole second; one that leaves it counts from the ordinary second
with the same fraction, forwards, or from the one after, backwards. -/
def addNanos? (t : Time) (d : Int) : Option Time :=
  let whole := d.tdiv 1000000000
  let fraction := d.tmod 1000000000
  let scale := 1000000000 * t.seconds + t.nanos
  if t.nanos < 1000000000 then ofNanos? (scale + d)
  else if 0 < whole ∨ 2000000000 ≤ t.nanos + fraction then ofNanos? (scale - 1000000000 + d)
  else if whole < 0 then ofNanos? (scale + d)
  else ofParts? t.seconds (t.nanos + fraction).toNat

/-- The time a number of milliseconds later, if it is in the range of times. -/
def addMillis? (t : Time) (millis : Int) : Option Time := t.addNanos? (1000000 * millis)

/-! ## Text -/

/-- A year in four digits, or with a sign and at least four digits if it is outside 0 to 9999. -/
def yearText (year : Int) : List Char :=
  if 0 ≤ year ∧ year ≤ 9999 then Decimal.padded 4 year.toNat
  else (if year < 0 then '-' else '+') :: Decimal.padded 4 year.natAbs

/-- Date and time of day down to the second, `2021-09-17T12:00:30`.  A leap second is shown as
second 60. -/
def secondText (t : Time) : List Char :=
  let c := t.civil
  yearText c.year ++ '-' :: Decimal.padded 2 c.month ++ '-' :: Decimal.padded 2 c.day ++
    'T' :: Decimal.padded 2 c.hour ++ ':' :: Decimal.padded 2 c.minute ++
    ':' :: Decimal.padded 2 (c.second + t.nanos / 1000000000)

/-- The text a time is shown as, in UTC and without the fraction. -/
def text (t : Time) : String := String.ofList (t.secondText ++ ['Z'])

instance : ToString Time := ⟨text⟩

end Time

end Rpki
