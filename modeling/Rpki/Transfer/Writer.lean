import Rpki.Time.Basic
import Rpki.Octets

/-!
# Writing the transfer form

Objects are handed from one process to another on the same machine as their fields one after the
other.  Numbers have a fixed width and start with the least significant octet; texts and lists have
their length in front; a text that is missing is written as an empty one; a time is written in
whole seconds.

Nothing says which field is which, so the reader has to ask for the same ones in the same order.
-/

set_option autoImplicit false

namespace Rpki

namespace Transfer

namespace Writer

/-! ## Numbers -/

def uint8 (n : UInt8) : Octets := [n]

def uint16 (n : UInt16) : Octets := Octets.ofLittleEndian 2 n.toNat

def uint32 (n : UInt32) : Octets := Octets.ofLittleEndian 4 n.toNat

def uint64 (n : UInt64) : Octets := Octets.ofLittleEndian 8 n.toNat

/-- A signed number in two's complement. -/
def int32 (n : Int32) : Octets := uint32 n.toUInt32

/-- A signed number in two's complement. -/
def int64 (n : Int64) : Octets := uint64 n.toUInt64

/-- A yes or no as the number 1 or 0. -/
def flag (b : Bool) : Octets := int32 (if b then 1 else 0)

/-- The length of a text or a list. -/
def length (n : Nat) : Octets := uint64 (UInt64.ofNat n)

/-! ## Texts and times -/

/-- A text with the number of its octets in front. -/
def string (s : String) : Octets :=
  let o := Octets.ofString s
  length o.length ++ o

/-- A text that may be missing. -/
def optionalString (s : Option String) : Octets := string (s.getD "")

/-- A time without its fraction. -/
def time (t : Time) : Octets := int64 (Int64.ofInt t.seconds)

end Writer

end Transfer

end Rpki
