import Rpki.Der.Element
import Rpki.Der.Error
import Rpki.Der.Integer
import Rpki.Der.BitString
import Rpki.Der.Oid

/-!
# Sequences

`Sequence.decode` reads octets that are one SEQUENCE and nothing else, and the other functions ask
for the element at a position by its kind.  Asking has three ways to fail, tried in this order:
there is no such element, it has another tag or form, or its content is not that of its kind.

A nested sequence is asked for like any other element and is then itself a list of elements.
-/

set_option autoImplicit false

namespace Rpki

namespace Der

/-- The elements of a sequence in order. -/
abbrev Sequence := List Element

/-- Fails with a fault in no particular field. -/
def fail {α : Type} (fault : Fault) : Except StructuralError α := .error ⟨none, fault⟩

/-! ## Elements by kind -/

namespace Element

/-- The element, if it is of the kind.  Its position is only named in the error. -/
def expect (e : Element) (position : Nat) (kind : Kind) : Except StructuralError Element :=
  if e.tag = kind.tag ∧ e.constructed = kind.isConstructed then .ok e
  else fail (.unexpectedElement position kind e.tag e.constructed)

/-- What a reader makes of the content of an element of the kind. -/
def contentAs {α : Type} (e : Element) (position : Nat) (kind : Kind)
    (read? : Octets → Option α) : Except StructuralError α := do
  let e ← e.expect position kind
  match read? e.content with
  | some a => .ok a
  | none => fail (.badEncoding position kind)

/-- The elements of an element that is a SEQUENCE. -/
def sequence (e : Element) (position : Nat) : Except StructuralError Sequence :=
  e.contentAs position .sequence readAll?

end Element

namespace Sequence

/-! ## Decoding -/

/-- Reads the elements of one SEQUENCE.  The octets are first stepped over as a value of any kind.
So octets behind a value are told apart from a value that breaks off, and are reported before the
value is looked at. -/
def decode (data : Octets) : Except StructuralError Sequence :=
  match Value.skip? data with
  | none => fail .decoding
  | some [] =>
    match Header.read? data with
    | some (⟨tag, true, .definite _⟩, body) =>
      if tag = .sequence then
        match Element.readAll? body with
        | some elements => .ok elements
        | none => fail .decoding
      else
        fail .decoding
    | _ => fail .decoding
  | some rest => fail (.trailingData rest.length)

/-! ## Access to elements -/

/-- The number of elements, if it is an allowed one. -/
def checkCount (s : Sequence) (allowed : List Nat) : Except StructuralError Nat :=
  if s.length ∈ allowed then .ok s.length else fail (.elementCount allowed s.length)

/-- The element at a position, of whatever kind. -/
def get (s : Sequence) (position : Nat) : Except StructuralError Element :=
  match s[position]? with
  | some e => .ok e
  | none => fail (.missingElement position)

/-- The element at a position, if it is of the kind. -/
def element (s : Sequence) (position : Nat) (kind : Kind) : Except StructuralError Element := do
  let e ← s.get position
  e.expect position kind

/-- What a reader makes of the content of the element at a position. -/
def contentAt {α : Type} (s : Sequence) (position : Nat) (kind : Kind) (read? : Octets → Option α) :
    Except StructuralError α := do
  let e ← s.get position
  e.contentAs position kind read?

/-- The INTEGER at a position. -/
def integer (s : Sequence) (position : Nat) : Except StructuralError Integer :=
  s.contentAt position .integer Integer.read?

/-- The BIT STRING at a position. -/
def bitString (s : Sequence) (position : Nat) : Except StructuralError BitString :=
  s.contentAt position .bitString BitString.read?

/-- The content of the OCTET STRING at a position. -/
def octetString (s : Sequence) (position : Nat) : Except StructuralError Octets :=
  s.contentAt position .octetString some

/-- The OBJECT IDENTIFIER at a position. -/
def oid (s : Sequence) (position : Nat) : Except StructuralError Oid :=
  s.contentAt position .objectIdentifier Oid.read?

/-- The text of an IA5String, if it is ASCII. -/
def asciiText? (content : Octets) : Option String :=
  if content.all (· < 0x80) then some content.ascii else none

/-- The text of the IA5String at a position, if that is ASCII. -/
def ia5String (s : Sequence) (position : Nat) : Except StructuralError (Option String) :=
  s.contentAt position .ia5String fun content ↦ some (asciiText? content)

/-- The content of the GeneralizedTime at a position.  Whether it is a time is left to the caller,
who can then tell a time that does not exist from a shape that does not fit. -/
def generalizedTime (s : Sequence) (position : Nat) : Except StructuralError Octets :=
  s.contentAt position .generalizedTime some

/-- The elements of the SEQUENCE at a position. -/
def sequence (s : Sequence) (position : Nat) : Except StructuralError Sequence :=
  s.contentAt position .sequence Element.readAll?

/-- The elements of the value with the explicit tag 0 at a position. -/
def explicit0 (s : Sequence) (position : Nat) : Except StructuralError Sequence :=
  s.contentAt position .explicit0 Element.readAll?

end Sequence

end Der

end Rpki
