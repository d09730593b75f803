import Rpki.Octets
import Rpki.Time.Basic

/-!
# Times in DER

A GeneralizedTime is the text `YYYYMMDDHHMMSSZ`, fourteen digits and a letter.  Reading demands
exactly that shape and a date that exists.  Writing has the same shape for the years 0 to 9999 and
grows or shrinks with the digits of the year outside them, although the length in front of the
text, `GeneralizedTime.statedLength`, is always that of the regular shape.
-/

set_option autoImplicit false

namespace Rpki

namespace GeneralizedTime

/-! ## Reading -/

/-- Is the octet an ASCII digit? -/
def isDigit (b : UInt8) : Bool := 0x30 ≤ b && b ≤ 0x39

/-- The number that ASCII digits denote. -/
def number (ds : Octets) : Nat := ds.foldl (fun n b ↦ 10 * n + (b.toNat - 0x30)) 0

/-- The date and time of day that fourteen digits denote, which need not exist. -/
def civil (ds : Octets) : CivilTime :=
  { year := (number (ds.take 4) : Int)
    month := number ((ds.drop 4).take 2)
    day := number ((ds.drop 6).take 2)
    hour := number ((ds.drop 8).take 2)
    minute := number ((ds.drop 10).take 2)
    second := number ((ds.drop 12).take 2) }

/-- Reads the content of a GeneralizedTime. -/
def read? (content : Octets) : Option Time :=
  if content.length = 15 ∧ content.drop 14 = [0x5A] ∧ (content.take 14).all isDigit then
    Time.ofCivil? (civil (content.take 14))
  else
    none

/-! ## Writing -/

/-- The year with zeros in front up to four characters, the sign of a negative year counted. -/
def yearText (year : Int) : List Char :=
  if 0 ≤ year then Decimal.padded 4 year.toNat else '-' :: Decimal.padded 3 year.natAbs

/-- The text of a time, without its fraction. -/
def text (t : Time) : List Char :=
  let c := t.civil
  yearText c.year ++ Decimal.padded 2 c.month ++ Decimal.padded 2 c.day ++
    Decimal.padded 2 c.hour ++ Decimal.padded 2 c.minute ++ Decimal.padded 2 c.second ++ ['Z']

/-- The content that is written for a time. -/
def content (t : Time) : Octets := (text t).map fun c ↦ UInt8.ofNat c.toNat

/-- The length that is written for the content of any time. -/
def statedLength : Nat := 15

end GeneralizedTime

end Rpki
