import Rpki.Time.Basic
import Rpki.Text.Blank

/-!
# Times in JSON

In JSON a time is a text in the style of RFC 3339, with a fraction and an offset from UTC.

`InternetTime.text` writes the strict form: UTC with a `Z`, and a fraction of three, six or nine
digits, as few as are exact, or none at all.  `InternetTime.read?` takes a good deal more.  Blanks
may stand in front of every number and every separator but not inside the offset's hours; a year
may have a sign and any number of digits, and the other numbers may drop a leading zero; the date
ends at `T`, `t` or a blank; the offset may be `Z`, `UTC` or hours and minutes with any colons and
blanks between them.  Everything that is written is also read, years outside 0 to 9999 and leap
seconds included.
-/

set_option autoImplicit false

namespace Rpki

namespace InternetTime

open Text (isBlank skipBlanks)

/-! ## Writing -/

/-- The digits behind the second: three, six or nine, as few as are exact. -/
def fractionText (nanos : Nat) : List Char :=
  if nanos = 0 then []
  else if nanos % 1000000 = 0 then '.' :: Decimal.padded 3 (nanos / 1000000)
  else if nanos % 1000 = 0 then '.' :: Decimal.padded 6 (nanos / 1000)
  else '.' :: Decimal.padded 9 nanos

/-- The text of a time, with its fraction. -/
def text (t : Time) : String :=
  String.ofList (t.secondText ++ fractionText (t.nanos % 1000000000) ++ ['Z'])

/-! ## Reading -/

/-- Takes one given character. -/
def char? (c : Char) : List Char → Option (List Char)
  | d :: cs => if d = c then some cs else none
  | [] => none

/-- Takes a year: at most four digits, or any number of them behind a sign. -/
def year? (cs : List Char) : Option (Int × List Char) :=
  match cs with
  | '-' :: cs => (Decimal.run? cs).map fun (ds, cs) ↦ (-(Decimal.value ds : Int), cs)
  | '+' :: cs => (Decimal.run? cs).map fun (ds, cs) ↦ ((Decimal.value ds : Int), cs)
  | cs => (Decimal.number? 4 cs).map fun (n, cs) ↦ ((n : Int), cs)

/-- Takes a number of at most two digits, with any blanks in front. -/
def two? (cs : List Char) : Option (Nat × List Char) := Decimal.number? 2 (skipBlanks cs)

/-- Takes a date. -/
def date? (cs : List Char) : Option (Date × List Char) := do
  let (year, cs) ← year? (skipBlanks cs)
  let cs ← char? '-' (skipBlanks cs)
  let (month, cs) ← two? cs
  let cs ← char? '-' (skipBlanks cs)
  let (day, cs) ← two? cs
  return (⟨year, month, day⟩, cs)

/-- Takes what separates date and time of day. -/
def separator? : List Char → Option (List Char)
  | c :: cs => if c = 'T' ∨ c = 't' ∨ c = ' ' then some cs else none
  | [] => none

/-- Takes a fraction in nanoseconds, zero if there is none.  Digits after the ninth are dropped. -/
def fraction? (cs : List Char) : Option (Nat × List Char) :=
  match cs with
  | '.' :: cs =>
    (Decimal.run? cs).map fun (ds, cs) ↦
      let kept := ds.take 9
      (Decimal.value kept * Nat.pow 10 (9 - kept.length), cs)
  | cs => some (0, cs)

/-- Takes exactly two digits. -/
def twoDigits? : List Char → Option (Nat × List Char)
  | a :: b :: cs =>
    if Decimal.isDigit a && Decimal.isDigit b then some (Decimal.value [a, b], cs) else none
  | _ => none

/-- Takes the hours and minutes of an offset, in seconds. -/
def offsetTime? (cs : List Char) : Option (Int × List Char) := do
  let (hours, cs) ← twoDigits? cs
  let (minutes, cs) ← twoDigits? (cs.dropWhile fun c ↦ c == ':' || isBlank c)
  if minutes < 60 then return ((3600 * hours + 60 * minutes : Nat), cs) else none

/-- Takes an offset from UTC, in seconds.  A minus may be the hyphen or the minus sign. -/
def offset? (cs : List Char) : Option (Int × List Char) :=
  match cs with
  | 'Z' :: cs | 'z' :: cs => some (0, cs)
  | '+' :: cs => offsetTime? cs
  | '-' :: cs | '−' :: cs => (offsetTime? cs).map fun (s, cs) ↦ (-s, cs)
  | a :: b :: c :: cs =>
    if [a, b, c].map Char.toUpper = ['U', 'T', 'C'] then some (0, cs) else none
  | _ => none

/-- The time with the given local date and time of day at an offset from UTC.  The local date has to
be in the range of times as well. -/
def resolve? (c : CivilTime) (nanos : Nat) (offset : Int) : Option Time := do
  let leap := c.second == 60
  let here ← Time.ofCivil? (if leap then { c with second := 59 } else c)
  if offset.natAbs < 86400 then
    Time.ofParts? (here.seconds - offset) (if leap then 1000000000 + nanos else nanos)
  else
    none

/-- Reads a time from all of the characters. -/
def readChars? (cs : List Char) : Option Time := do
  let (date, cs) ← date? cs
  let cs ← separator? cs
  let (hour, cs) ← two? cs
  let cs ← char? ':' (skipBlanks cs)
  let (minute, cs) ← two? cs
  let cs ← char? ':' (skipBlanks cs)
  let (second, cs) ← two? cs
  let (nanos, cs) ← fraction? cs
  let (offset, cs) ← offset? (skipBlanks cs)
  if (skipBlanks cs).isEmpty then
    resolve? ⟨date, hour, minute, second⟩ nanos offset
  else
    none

/-- Reads a time from all of the text. -/
def read? (s : String) : Option Time := readChars? s.toList

end InternetTime

end Rpki
