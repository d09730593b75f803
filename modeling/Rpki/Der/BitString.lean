import Rpki.Octets

/-!
# BIT STRING

The content of a BIT STRING is an octet that says how many bits at the end of the last octet do not
count, and the octets with the bits.  The bits that do not count have to be zero, which leaves every
string of bits one content only.
-/

set_option autoImplicit false

namespace Rpki

namespace Der

namespace BitString

/-- Are there at most seven unused bits, none of them without an octet to be in, and all zero? -/
def isRegular (unused : UInt8) (octets : Octets) : Bool :=
  unused ≤ 7 && (!octets.isEmpty || unused == 0) &&
    (octets.getLastD 0).toNat % Nat.pow 2 unused.toNat == 0

end BitString

/-- The content of a BIT STRING. -/
structure BitString where
  /-- The number of bits at the end that do not count. -/
  unused : UInt8
  octets : Octets
  regular : BitString.isRegular unused octets = true
deriving DecidableEq

namespace BitString

/-- Reads the content of a BIT STRING. -/
def read? : Octets → Option BitString
  | [] => none
  | unused :: octets =>
    if h : isRegular unused octets = true then some ⟨unused, octets, h⟩ else none

/-- The number of bits that count. -/
def bitLength (b : BitString) : Nat := 8 * b.octets.length - b.unused.toNat

theorem unused_le (b : BitString) : b.unused.toNat ≤ 7 := by
  have h := b.regular
  simp only [isRegular, Bool.and_eq_true, decide_eq_true_eq] at h
  exact UInt8.le_iff_toNat_le.mp h.1.1

/-- The bits that count reach into the last octet, so a bound in bits is one in octets. -/
theorem length_octets_le (b : BitString) {n : Nat} (h : b.bitLength ≤ 8 * n) :
    b.octets.length ≤ n := by
  have := b.unused_le
  simp only [bitLength] at h
  omega

end BitString

end Der

end Rpki
