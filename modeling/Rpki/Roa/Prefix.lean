import Rpki.IpAddress
import Rpki.SignedObject

/-!
# Prefixes

A ROA lists the prefixes that an autonomous system may announce.  A prefix is an address of which
the first `length` bits count and the others are zero, and it may be announced in parts up to
`maxLength` bits long.

A `Prefix` is plain data.  `Prefix.ofAddress` makes the ones that keep the rules, and whoever gets a
prefix from elsewhere compares it with what `Prefix.ofAddress` makes of its parts.

Both address families go through sixteen octets, where an IPv4 address is followed by zeros.  So
the zeros behind a prefix include the octets that an IPv4 address does not have.
-/

set_option autoImplicit false

namespace Rpki

/-! ## Address families -/

/-- The families of addresses. -/
inductive AddressFamily
  | ipv4
  | ipv6
deriving DecidableEq

namespace AddressFamily

/-- The number of a family. -/
def number : AddressFamily → UInt16
  | ipv4 => 1
  | ipv6 => 2

/-- The family with a number. -/
def ofNumber? (n : UInt16) : Option AddressFamily :=
  if n = 1 then some ipv4 else if n = 2 then some ipv6 else none

/-- The family whose number two octets are.  A third octet, which would restrict the family, is not
accepted. -/
def ofOctets? : Octets → Option AddressFamily
  | [0, 1] => some ipv4
  | [0, 2] => some ipv6
  | _ => none

/-- The number of bits of an address. -/
def width : AddressFamily → UInt8
  | ipv4 => 32
  | ipv6 => 128

/-- The name of a family. -/
def name : AddressFamily → String
  | ipv4 => "Ipv4"
  | ipv6 => "Ipv6"

end AddressFamily

/-! ## Prefixes -/

/-- A prefix of a ROA. -/
structure Prefix where
  family : AddressFamily
  address : IpAddress
  /-- The number of bits that count. -/
  length : UInt8
  /-- The number of bits of the longest prefix that may be announced. -/
  maxLength : UInt8
deriving DecidableEq

namespace Prefix

/-- Are all bits behind the first `length` zero? -/
def hostBitsClear : Octets → Nat → Bool
  | [], _ => true
  | b :: rest, length => b.toNat % Nat.pow 2 (8 - length) == 0 && hostBitsClear rest (length - 8)

/-- The address in sixteen octets that starts with those of an address of the family. -/
def addressOf : AddressFamily → FixedOctets 16 → IpAddress
  | .ipv4, o => .v4 ⟨o.val.take 4, by simp [o.property]⟩
  | .ipv6, o => .v6 o

/-- The prefix with the given octets and lengths.  The maximum length is that of the prefix, unless
something else is said. -/
def ofOctets (family : AddressFamily) (octets : FixedOctets 16) (length : UInt8)
    (maxLength : Option UInt8) : Except SemanticError Prefix :=
  let longest := maxLength.getD length
  if family.width < length then .error (.prefixLength length.toNat)
  else if longest < length ∨ family.width < longest then
    .error (.maxLength length.toNat (some longest.toNat))
  else if hostBitsClear octets.val length.toNat then
    .ok ⟨family, addressOf family octets, length, longest⟩
  else .error (.prefixLength length.toNat)

/-- The family of an address and its octets, filled up to sixteen. -/
def widened : IpAddress → AddressFamily × FixedOctets 16
  | .v4 o => (.ipv4, .padRight 16 o.val (by simp [o.property]))
  | .v6 o => (.ipv6, o)

/-- The prefix of an address with the given lengths. -/
def ofAddress (address : IpAddress) (length : UInt8) (maxLength : Option UInt8) :
    Except SemanticError Prefix :=
  let (family, octets) := widened address
  ofOctets family octets length maxLength

/-- Is it a prefix that keeps the rules?  Then its parts make it again. -/
def isValid (p : Prefix) : Bool :=
  match ofAddress p.address p.length (some p.maxLength) with
  | .ok q => q == p
  | .error _ => false

/-- The text a prefix is shown as, without its maximum length. -/
def text (p : Prefix) : String := s!"{p.address}/{p.length}"

/-! ## Reading -/

/-- The maximum length in an INTEGER, for a prefix of `length` bits. -/
def maxLengthOf (length : Nat) (n : Der.Integer) : Except SemanticError UInt8 :=
  match n.toUInt32? with
  | some m =>
    if m.toNat < 256 then .ok (UInt8.ofNat m.toNat) else .error (.maxLength length (some m.toNat))
  | none => .error (.maxLength length none)

/-- Reads a prefix from its elements: a BIT STRING of the bits that count, and perhaps an INTEGER,
the maximum length. -/
def ofElements (family : AddressFamily) (item : Der.Sequence) : Except ParseError Prefix := do
  let count ← inField .roaIpAddress (item.checkCount [1, 2])
  let bits ← inField .address (item.bitString 0)
  if h : bits.bitLength ≤ family.width.toNat then
    have le : bits.octets.length ≤ 16 := bits.length_octets_le <| by
      cases family <;> simp [AddressFamily.width] at h <;> omega
    let maxLength ←
      if count = 2 then do
        let n ← inField .maxLength (item.integer 1)
        some <$> asValue (maxLengthOf bits.bitLength n)
      else pure none
    asValue (ofOctets family (.padRight 16 bits.octets le) (UInt8.ofNat bits.bitLength) maxLength)
  else
    asValue (.error (.prefixLength bits.bitLength))

end Prefix

end Rpki
