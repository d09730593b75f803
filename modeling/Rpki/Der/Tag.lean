import Rpki.Octets

/-!
# Tags

A value in DER starts with its identifier: a class, a number, and a bit that says whether the value
is constructed from further values.  A `Tag` is the identifier without that bit.  It is kept as the
octets it is written in and two tags are equal when these octets are.  So a tag whose number is
spelt in more octets than it needs is a different tag, although it is shown with the same number.
-/

set_option autoImplicit false

namespace Rpki

namespace Der

/-- The identifier of a value without its constructed bit. -/
structure Tag where
  /-- The first octet, with the constructed bit clear. -/
  leading : UInt8
  /-- The octets of a number that does not fit into the first one. -/
  following : Octets := []
deriving DecidableEq

namespace Tag

/-! ## Reading and writing -/

/-- Takes the further octets of a number, at most `limit` of them.  The last one is the first
without its high bit. -/
def readFollowing? : Nat → Octets → Option (Octets × Octets)
  | 0, _ => none
  | _, [] => none
  | limit + 1, b :: rest =>
    if b &&& 0x80 = 0 then some ([b], rest)
    else (readFollowing? limit rest).map fun (more, rest) ↦ (b :: more, rest)

/-- Takes an identifier: a tag and the constructed bit.  A number may have three further octets. -/
def read? : Octets → Option ((Tag × Bool) × Octets)
  | [] => none
  | first :: rest =>
    let constructed := first &&& 0x20 != 0
    let leading := first &&& 0xDF
    if first &&& 0x1F = 0x1F then
      (readFollowing? 3 rest).map fun (more, rest) ↦ ((⟨leading, more⟩, constructed), rest)
    else
      some ((⟨leading, []⟩, constructed), rest)

/-- The octets of an identifier. -/
def octets (t : Tag) (constructed : Bool) : Octets :=
  (if constructed then t.leading ||| 0x20 else t.leading) :: t.following

/-! ## The tags in use -/

/-- The tag that ends an indefinite value, and that no other value may have. -/
def endOfContents : Tag := ⟨0x00, []⟩

def integer : Tag := ⟨0x02, []⟩
def bitString : Tag := ⟨0x03, []⟩
def octetString : Tag := ⟨0x04, []⟩
def objectIdentifier : Tag := ⟨0x06, []⟩
def sequence : Tag := ⟨0x10, []⟩
def set : Tag := ⟨0x11, []⟩
def ia5String : Tag := ⟨0x16, []⟩
def utcTime : Tag := ⟨0x17, []⟩
def generalizedTime : Tag := ⟨0x18, []⟩

/-- The context specific tag 0. -/
def context0 : Tag := ⟨0x80, []⟩

/-! ## Text -/

/-- The names of the universal tags that have one. -/
def universalNames : List (Tag × String) :=
  [(⟨0x01, []⟩, "BOOLEAN"), (⟨0x02, []⟩, "INTEGER"), (⟨0x03, []⟩, "BIT STRING"),
   (⟨0x04, []⟩, "OCTET STRING"), (⟨0x05, []⟩, "NULL"), (⟨0x06, []⟩, "OBJECT IDENTIFIER"),
   (⟨0x07, []⟩, "ObjectDescriptor"), (⟨0x08, []⟩, "EXTERNAL"), (⟨0x09, []⟩, "REAL"),
   (⟨0x0A, []⟩, "ENUMERATED"), (⟨0x0B, []⟩, "EMBEDDED PDV"), (⟨0x0C, []⟩, "UTF8String"),
   (⟨0x0D, []⟩, "RELATIVE-OID"), (⟨0x0E, []⟩, "TIME"), (⟨0x10, []⟩, "SEQUENCE"),
   (⟨0x11, []⟩, "SET"), (⟨0x12, []⟩, "NumericString"), (⟨0x13, []⟩, "PrintableString"),
   (⟨0x14, []⟩, "TeletexString"), (⟨0x15, []⟩, "VideotexString"), (⟨0x16, []⟩, "IA5String"),
   (⟨0x17, []⟩, "UTCTime"), (⟨0x18, []⟩, "GeneralizedTime"), (⟨0x19, []⟩, "GraphicString"),
   (⟨0x1A, []⟩, "VisibleString"), (⟨0x1B, []⟩, "GeneralString"), (⟨0x1C, []⟩, "UniversalString"),
   (⟨0x1D, []⟩, "CHARACTER STRING"), (⟨0x1E, []⟩, "BMPString"), (⟨0x1F, [0x00]⟩, "DATE")]

/-- The number of a tag: the low five bits of a single octet, or seven bits of each further one. -/
def number (t : Tag) : Nat :=
  if t.following = [] then (t.leading &&& 0x1F).toNat
  else t.following.foldl (fun n b ↦ 128 * n + (b &&& 0x7F).toNat) 0

/-- The text a tag is shown as: its name, or its class and number. -/
def text (t : Tag) : String :=
  match universalNames.lookup t with
  | some name => name
  | none =>
    let n := t.number
    if t.leading < 0x40 then s!"[UNIVERSAL {n}]"
    else if t.leading < 0x80 then s!"[APPLICATION {n}]"
    else if t.leading < 0xC0 then s!"[{n}]"
    else s!"[PRIVATE {n}]"

end Tag

end Der

end Rpki
