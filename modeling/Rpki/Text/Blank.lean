/-!
# Blank characters

The characters with the Unicode property `White_Space`, all twenty-five of them.
-/

set_option autoImplicit false

namespace Rpki

namespace Text

/-- The first and last number of each run of blank characters. -/
def blankRanges : List (Nat × Nat) :=
  [(0x09, 0x0D), (0x20, 0x20), (0x85, 0x85), (0xA0, 0xA0), (0x1680, 0x1680), (0x2000, 0x200A),
   (0x2028, 0x2029), (0x202F, 0x202F), (0x205F, 0x205F), (0x3000, 0x3000)]

/-- Is the character blank? -/
def isBlank (c : Char) : Bool := blankRanges.any fun r ↦ r.1 ≤ c.toNat && c.toNat ≤ r.2

/-- The characters from the first one that is not blank. -/
def skipBlanks (cs : List Char) : List Char := cs.dropWhile isBlank

end Text

end Rpki
