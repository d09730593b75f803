import Rpki.Der.Header
import Rpki.Der.Oid
import Rpki.Time.Generalized

/-!
# Writing values

A header comes before its content, so whoever writes a value has to say how long the content will
be.  `Encoded` keeps what was said apart from what is written: `stated` is the length that the
headers around a value count for it, and `octets` is the value.  A sequence adds up the stated
lengths of its parts and never looks at their octets.

The two agree for every value but a time whose year does not have four digits, since the stated
length of a time is a constant.
-/

set_option autoImplicit false

namespace Rpki

namespace Der

/-- A value that has been written. -/
structure Encoded where
  /-- The number of octets that the headers around it count for it. -/
  stated : Nat
  octets : Octets
deriving DecidableEq

namespace Encoded

/-- A value whose content is said to have `stated` octets. -/
def value (tag : Tag) (constructed : Bool) (stated : Nat) (content : Octets) : Encoded :=
  let header := tag.octets constructed ++ Length.octets stated
  ⟨header.length + stated, header ++ content⟩

/-- A primitive value. -/
def primitive (tag : Tag) (content : Octets) : Encoded := value tag false content.length content

/-- An object identifier. -/
def oid (o : Oid) : Encoded := primitive .objectIdentifier o.octets

/-- A text as an IA5String.  That it is ASCII is up to the caller. -/
def ia5String (text : String) : Encoded := primitive .ia5String (Octets.ofString text)

/-- A BIT STRING of whole octets. -/
def bitString (octets : Octets) : Encoded := primitive .bitString (0 :: octets)

/-- A time, cut to whole seconds. -/
def generalizedTime (t : Time) : Encoded :=
  value .generalizedTime false GeneralizedTime.statedLength (GeneralizedTime.content t)

/-- A sequence of the given values. -/
def sequence (parts : List Encoded) : Encoded :=
  value .sequence true ((parts.map stated).foldr (· + ·) 0) (parts.flatMap octets)

end Encoded

end Der

end Rpki
