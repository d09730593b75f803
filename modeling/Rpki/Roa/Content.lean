import Rpki.Roa.Prefix

/-!
# The content of a route origin authorisation

The content is the number of an autonomous system and up to two blocks of prefixes, one for each
address family.  Neither a block nor the list of blocks may be empty, and no family may have a
second block.  The prefixes are taken out of their blocks and kept in the order they come in.
-/

set_option autoImplicit false

namespace Rpki

/-- The content of a route origin authorisation. -/
structure RoaContent where
  /-- The autonomous system that may announce the prefixes. -/
  asId : UInt32
  prefixes : List Prefix
deriving DecidableEq

namespace RoaContent

/-- The elements of a sequence that must have some. -/
def nonempty (s : Der.Sequence) : Except ParseError Der.Sequence :=
  if s = [] then asValue (.error .noPrefixes) else .ok s

/-- Reads the family of a block, which must not be one that was seen before, and its prefixes. -/
def readBlock (seen : List AddressFamily) (block : Der.Sequence) :
    Except ParseError (AddressFamily × List Prefix) := do
  let _ ← inField .roaIpAddressFamily (block.checkCount [2])
  let octets ← inField .addressFamily (block.octetString 0)
  match AddressFamily.ofOctets? octets with
  | none => asValue (.error .unknownFamily)
  | some family =>
    if family ∈ seen then asValue (.error .repeatedFamily)
    else
      let list ← inField .addresses (block.sequence 1)
      let list ← nonempty list
      let prefixes ← readEach .addresses (Prefix.ofElements family) 0 list
      return (family, prefixes)

/-- Reads blocks from a position on and puts their prefixes one after the other. -/
def readBlocks (seen : List AddressFamily) : Nat → Der.Sequence → Except ParseError (List Prefix)
  | _, [] => .ok []
  | position, e :: es => do
    let block ← inField .ipAddrBlocks (e.sequence position)
    let (family, prefixes) ← readBlock seen block
    let others ← readBlocks (family :: seen) (position + 1) es
    return prefixes ++ others

/-- Reads the content.  Three elements are two and a version in front. -/
def decode (content : Octets) : Except ParseError RoaContent := do
  let elements ← inField .routeOriginAttestation (Der.Sequence.decode content)
  let count ← inField .routeOriginAttestation (elements.checkCount [2, 3])
  if count = 3 then
    .error (explicitVersion elements)
  else
    let number ← inField .asId (elements.integer 0)
    match number.toUInt32? with
    | none => asValue (.error .asIdOutOfRange)
    | some asId =>
      let blocks ← inField .ipAddrBlocks (elements.sequence 1)
      let blocks ← nonempty blocks
      let prefixes ← readBlocks [] 0 blocks
      return ⟨asId, prefixes⟩

end RoaContent

end Rpki
