/-!
# Decimal text

Counts, years and the fields of a date, written with at least a given number of characters and read
back from the front of a text.  A width is never a limit: a number that needs more digits than it
was given room for is written in full.
-/

set_option autoImplicit false

namespace Rpki

namespace Decimal

/-! ## Writing -/

/-- The digits of `n` without leading zeros, `0` for zero. -/
def digits (n : Nat) : List Char := Nat.toDigits 10 n

/-- The digits of `n` with zeros in front up to `width` characters. -/
def padded (width n : Nat) : List Char :=
  List.replicate (width - (digits n).length) '0' ++ digits n

/-- The digits of `n` with blanks in front up to `width` characters. -/
def aligned (width n : Nat) : String :=
  String.ofList (List.replicate (width - (digits n).length) ' ' ++ digits n)

/-! ## Reading -/

/-- Is the character an ASCII digit? -/
def isDigit (c : Char) : Bool := '0' ≤ c && c ≤ '9'

/-- The number that a list of digits denotes. -/
def value (ds : List Char) : Nat := ds.foldl (fun n c ↦ 10 * n + (c.toNat - '0'.toNat)) 0

/-- Takes the run of digits in front, which must not be empty. -/
def run? (cs : List Char) : Option (List Char × List Char) :=
  match cs.takeWhile isDigit with
  | [] => none
  | ds => some (ds, cs.dropWhile isDigit)

/-- Takes a number of at least one and at most `limit` digits.  A digit that comes after these is
left where it is. -/
def number? (limit : Nat) (cs : List Char) : Option (Nat × List Char) :=
  match (cs.take limit).takeWhile isDigit with
  | [] => none
  | ds => some (value ds, cs.drop ds.length)

end Decimal

end Rpki
