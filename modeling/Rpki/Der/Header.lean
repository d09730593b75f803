import Rpki.Der.Tag

/-!
# Headers

A header is an identifier and a length.  DER wants the length in its shortest form, which
`Length.read?` insists on: the number of octets after the first is as small as it can be, and a
length that fits into one octet has no further ones.  So a definite length has exactly one
spelling, `Length.octets`.

The indefinite length of BER is read too, since values that hold it can be stepped over.
-/

set_option autoImplicit false

namespace Rpki

namespace Der

/-- The length of a value's content. -/
inductive Length
  /-- So many octets. -/
  | definite (n : Nat)
  /-- Up to the end-of-contents value. -/
  | indefinite
deriving DecidableEq

namespace Length

/-- The smallest length that needs `width` octets after the first one. -/
def least (width : Nat) : Nat := if width ≤ 1 then 0x80 else Nat.pow 256 (width - 1)

/-- Takes a length.  There may be four octets after the first one. -/
def read? : Octets → Option (Length × Octets)
  | [] => none
  | first :: rest =>
    if first < 0x80 then some (.definite first.toNat, rest)
    else if first = 0x80 then some (.indefinite, rest)
    else if first ≤ 0x84 then
      let width := first.toNat - 0x80
      match FixedOctets.take? width rest with
      | none => none
      | some (o, rest) =>
        let n := o.val.bigEndian
        if least width ≤ n then some (.definite n, rest) else none
    else
      none

/-- The number of octets after the first one that a definite length takes. -/
def width (n : Nat) : Nat :=
  if n < 0x80 then 0
  else if n < 0x100 then 1
  else if n < 0x10000 then 2
  else if n < 0x1000000 then 3
  else 4

/-- The octets of a definite length below 2³². -/
def octets (n : Nat) : Octets :=
  if n < 0x80 then [UInt8.ofNat n]
  else UInt8.ofNat (0x80 + width n) :: Octets.ofBigEndian (width n) n

end Length

/-- What stands in front of a value's content. -/
structure Header where
  tag : Tag
  constructed : Bool
  length : Length
deriving DecidableEq

namespace Header

/-- Takes a header. -/
def read? (s : Octets) : Option (Header × Octets) := do
  let ((tag, constructed), s) ← Tag.read? s
  let (length, s) ← Length.read? s
  return (⟨tag, constructed, length⟩, s)

/-- Is this what ends an indefinite value? -/
def isEnd (h : Header) : Bool := h == ⟨.endOfContents, false, .definite 0⟩

end Header

end Der

end Rpki
