import Rpki.Der.Tag

/-!
# Structural errors

What can be wrong with the shape of an encoded object, as opposed to its values.  A
`StructuralError` is a `Fault` together with the field of the object that was being read, once a
reader that knows the field has added it.  The innermost field is kept, since it is the most
specific one.

Faults in the encoding itself have no text beyond saying so, whatever it is that breaks the rules of
DER.
-/

set_option autoImplicit false

namespace Rpki

/-- The fields of the objects, by their names in the definitions of manifests and route origin
authorisations. -/
inductive Field
  | manifest
  | routeOriginAttestation
  | version
  | manifestNumber
  | thisUpdate
  | nextUpdate
  | fileHashAlg
  | fileList
  | fileAndHash
  | asId
  | ipAddrBlocks
  | roaIpAddressFamily
  | addressFamily
  | addresses
  | roaIpAddress
  | address
  | maxLength
deriving DecidableEq

/-- The name of a field. -/
def Field.name : Field → String
  | manifest => "Manifest"
  | routeOriginAttestation => "RouteOriginAttestation"
  | version => "version"
  | manifestNumber => "manifestNumber"
  | thisUpdate => "thisUpdate"
  | nextUpdate => "nextUpdate"
  | fileHashAlg => "fileHashAlg"
  | fileList => "fileList"
  | fileAndHash => "FileAndHash"
  | asId => "asID"
  | ipAddrBlocks => "ipAddrBlocks"
  | roaIpAddressFamily => "ROAIPAddressFamily"
  | addressFamily => "addressFamily"
  | addresses => "addresses"
  | roaIpAddress => "ROAIPAddress"
  | address => "address"
  | maxLength => "maxLength"

namespace Der

/-! ## Kinds of elements -/

/-- The kinds of elements that can be asked for. -/
inductive Kind
  | integer
  | bitString
  | octetString
  | objectIdentifier
  | ia5String
  | utcTime
  | generalizedTime
  | sequence
  | set
  /-- A constructed value with the context specific tag 0. -/
  | explicit0
deriving DecidableEq

namespace Kind

/-- The tag of a kind. -/
def tag : Kind → Tag
  | integer => .integer
  | bitString => .bitString
  | octetString => .octetString
  | objectIdentifier => .objectIdentifier
  | ia5String => .ia5String
  | utcTime => .utcTime
  | generalizedTime => .generalizedTime
  | sequence => .sequence
  | set => .set
  | explicit0 => .context0

/-- Are the values of a kind made of further values? -/
def isConstructed : Kind → Bool
  | sequence | set | explicit0 => true
  | _ => false

/-- The name of a kind. -/
def name : Kind → String
  | integer => "integer"
  | bitString => "bit string"
  | octetString => "octet string"
  | objectIdentifier => "object identifier"
  | ia5String => "IA5 string"
  | utcTime => "UTC time"
  | generalizedTime => "generalised time"
  | sequence => "sequence"
  | set => "set"
  | explicit0 => "[0] explicit tag"

end Kind

/-! ## Faults -/

/-- Why a well-formed element is of no use. -/
inductive BadValue
  | versionOutOfRange
  | hashWithUnusedBits
deriving DecidableEq

/-- The text of the reason. -/
def BadValue.reason : BadValue → String
  | versionOutOfRange => "version out of range"
  | hashWithUnusedBits => "hash with unused bits"

/-- What is wrong with the shape of an object. -/
inductive Fault
  /-- The octets are not a sequence in DER. -/
  | decoding
  /-- There are so many octets behind the sequence. -/
  | trailingData (octets : Nat)
  /-- The sequence does not have one of the allowed numbers of elements. -/
  | elementCount (allowed : List Nat) (found : Nat)
  /-- The sequence ends before the position. -/
  | missingElement (position : Nat)
  /-- The element at the position is of another kind. -/
  | unexpectedElement (position : Nat) (expected : Kind) (found : Tag) (constructed : Bool)
  /-- The element at the position does not have the content of its kind. -/
  | badEncoding (position : Nat) (kind : Kind)
  /-- The element at the position is well-formed and of no use. -/
  | badValue (position : Nat) (kind : Kind) (value : BadValue)
deriving DecidableEq

namespace Fault

/-- The position of the element a fault is about. -/
def position? : Fault → Option Nat
  | decoding | trailingData _ | elementCount _ _ => none
  | missingElement position | unexpectedElement position _ _ _ | badEncoding position _
  | badValue position _ _ => some position

/-- The text of a fault. -/
def message : Fault → String
  | decoding => "failed ASN.1 parse"
  | trailingData octets => s!"{octets} octets of trailing data"
  | elementCount allowed found =>
    let want := " or ".intercalate (allowed.map toString)
    s!"want {want} elements, have {found}"
  | missingElement position => s!"missing element at position {position}"
  | unexpectedElement position expected found constructed =>
    let form := if constructed then "constructed" else "primitive"
    s!"want ASN.1 {expected.name} at position {position}, have {form} {found.text}"
  | badEncoding position kind => s!"invalid ASN.1 {kind.name} at position {position}"
  | badValue position kind value =>
    s!"invalid ASN.1 {kind.name} at position {position}: {value.reason}"

end Fault

end Der

/-! ## Faults in a field -/

/-- A fault in the shape of an object, and the field it is in. -/
structure StructuralError where
  field : Option Field
  fault : Der.Fault
deriving DecidableEq

namespace StructuralError

/-- Names the field that was being read, unless a field within it has been named already. -/
def within (f : Field) (e : StructuralError) : StructuralError :=
  { e with field := e.field.or (some f) }

/-- The text of an error. -/
def message (e : StructuralError) : String :=
  match e.field with
  | none => e.fault.message
  | some f => s!"{f.name}: {e.fault.message}"

end StructuralError

end Rpki
