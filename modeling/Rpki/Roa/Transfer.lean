import Rpki.Roa.Basic
import Rpki.Transfer.Reader
import Rpki.Transfer.Writer

/-!
# The transfer form of route origin authorisations

The fields in order are: the path, the number of the autonomous system, the time of expiry, the
number of prefixes and for each its family, its two lengths and sixteen octets, the location of the
issuer's certificate, and the authority's and the subject's key identifier.

An IPv4 address is in the first four of the sixteen octets.  The others have to be zero, because
they are behind the end of any prefix of the family.
-/

set_option autoImplicit false

namespace Rpki

namespace Roa

open Transfer

/-! ## Writing -/

/-- The octets of a prefix. -/
def writePrefix (p : Prefix) : Octets :=
  Writer.uint16 p.family.number ++ Writer.uint8 p.length ++ Writer.uint8 p.maxLength ++
    (Prefix.widened p.address).2.val

/-- The transfer form of a ROA. -/
def toTransfer (r : Roa) : Octets :=
  Writer.string r.path ++ Writer.uint32 r.asId ++ Writer.time r.expires ++
    Writer.length r.prefixes.length ++ r.prefixes.flatMap writePrefix ++
    Writer.optionalString r.aia ++ Writer.string r.aki ++ Writer.string r.ski

/-! ## Reading -/

/-- The number of octets of a prefix. -/
def prefixOctets : Nat := 2 + 1 + 1 + 16

/-- Takes a prefix. -/
def readPrefix : Reader Prefix := do
  match AddressFamily.ofNumber? (← Reader.uint16) with
  | none => Reader.fail (.badValue .addressFamily)
  | some family =>
    let length ← Reader.uint8
    let maxLength ← Reader.uint8
    let octets ← Reader.fixed 16
    match Prefix.ofOctets family octets length (some maxLength) with
    | .ok p => return p
    | .error _ => Reader.fail (.badValue .roaPrefix)

/-- Takes a ROA, which has to be all there is. -/
def read : Reader Roa := do
  let path ← Reader.string
  let asId ← Reader.uint32
  let expires ← Reader.time
  let count ← Reader.count prefixOctets
  let prefixes ← Reader.items readPrefix count
  let aia ← Reader.optionalString
  let aki ← Reader.string
  let ski ← Reader.string
  Reader.finish
  let roa : Roa := ⟨path, asId, prefixes, ski, aki, aia, expires⟩
  match roa.check with
  | .ok () => return roa
  | .error rule => Reader.fail (.badValue rule)

/-- The ROA with the given transfer form. -/
def ofTransfer (data : Octets) : Except TransferError Roa := read.run data

end Roa

end Rpki
