import Rpki.Der.Encoded
import Rpki.Der.Integer
import Rpki.Error
import Rpki.Hex

/-!
# Manifest numbers

The numbers of a publisher's manifests grow, and with up to twenty octets they have room to.  A
`ManifestNumber` is kept in twenty octets, most significant first, so that the order of the octets
is the order of the numbers.

It is written in two shapes without the zeros in front: as an INTEGER, which needs one of them back
where the first bit would otherwise read as a sign, and as hexadecimal text, which is always whole
octets.  Zero has no octets left at all; it is written as one zero octet and as one digit.
-/

set_option autoImplicit false

namespace Rpki

/-- The number of a manifest. -/
structure ManifestNumber where
  octets : FixedOctets 20
deriving DecidableEq

namespace ManifestNumber

/-! ## Value and order -/

/-- The number as such. -/
def value (n : ManifestNumber) : Nat := n.octets.val.bigEndian

/-- The order of the octets, first difference first. -/
instance : LT ManifestNumber := ⟨fun a b ↦ a.octets.val < b.octets.val⟩

instance (a b : ManifestNumber) : Decidable (a < b) :=
  inferInstanceAs (Decidable (a.octets.val < b.octets.val))

/-- Less, equal or greater in the order of the octets. -/
instance : Ord ManifestNumber := ⟨fun a b ↦ compareOfLessAndEq a b⟩

/-! ## Making numbers -/

/-- The number with the given octets, if it has at most twenty without the zeros in front. -/
def ofOctets (o : Octets) : Except SemanticError ManifestNumber :=
  if h : o.significant.length ≤ 20 then .ok ⟨.padLeft 20 o.significant h⟩
  else .error (.numberTooLong o.significant.length)

/-- The number that an INTEGER is, if it is not negative and not too large. -/
def ofInteger (i : Der.Integer) : Except SemanticError ManifestNumber :=
  if i.isNegative then .error .negativeNumber else ofOctets i.octets

/-- The number `n`, which loses whatever does not fit into twenty octets. -/
def ofNat (n : Nat) : ManifestNumber :=
  ⟨Octets.ofBigEndian 20 n, Octets.length_ofBigEndian 20 n⟩

/-! ## Writing -/

/-- The octets without the zeros in front. -/
def significant (n : ManifestNumber) : Octets := n.octets.val.significant

/-- Does the INTEGER need a zero octet in front?  It does if there is no octet at all, or if the
first one would make it negative. -/
def needsPad (n : ManifestNumber) : Bool :=
  match n.significant with
  | [] => true
  | first :: _ => 0x80 ≤ first

/-- The content of the INTEGER. -/
def content (n : ManifestNumber) : Octets :=
  if n.needsPad then 0 :: n.significant else n.significant

/-- The INTEGER. -/
def encode (n : ManifestNumber) : Der.Encoded := .primitive .integer n.content

/-- The text a number is shown as. -/
def text (n : ManifestNumber) : String :=
  if n.significant = [] then "0" else Hex.encode n.significant

instance : ToString ManifestNumber := ⟨text⟩

/-- The text with the type in front, for messages to developers. -/
def debugText (n : ManifestNumber) : String := s!"ManifestNumber({n})"

end ManifestNumber

end Rpki
