import Rpki.Octets

/-!
# INTEGER

The content of an INTEGER is a number in two's complement, most significant octet first, in as few
octets as possible.  An `Integer` keeps the octets.  There is no bound on their number, and being
the shortest possible they are determined by the value.
-/

set_option autoImplicit false

namespace Rpki

namespace Der

namespace Integer

/-- Is there an octet, and could it not be left out?  It could if the first nine bits are equal. -/
def isShortest : Octets → Bool
  | [] => false
  | [_] => true
  | a :: b :: _ => !((a == 0 && b < 0x80) || (a == 0xFF && 0x80 ≤ b))

end Integer

/-- The content of an INTEGER. -/
structure Integer where
  octets : Octets
  shortest : Integer.isShortest octets = true
deriving DecidableEq

namespace Integer

/-- Reads the content of an INTEGER. -/
def read? (content : Octets) : Option Integer :=
  if h : isShortest content = true then some ⟨content, h⟩ else none

/-- Is the first bit set? -/
def isNegative (i : Integer) : Bool := 0x80 ≤ i.octets.headD 0

/-- The number in two's complement. -/
def value (i : Integer) : Int :=
  if i.isNegative then (i.octets.bigEndian : Int) - Nat.pow 256 i.octets.length
  else i.octets.bigEndian

/-- The value, if it is a signed number of 64 bits. -/
def toSigned64? (i : Integer) : Option Int :=
  if Int64.minValue.toInt ≤ i.value ∧ i.value ≤ Int64.maxValue.toInt then some i.value else none

/-- The value, if it is an unsigned number of 32 bits. -/
def toUInt32? (i : Integer) : Option UInt32 :=
  if 0 ≤ i.value ∧ i.value < UInt32.size then some (UInt32.ofNat i.value.toNat) else none

end Integer

end Der

end Rpki
