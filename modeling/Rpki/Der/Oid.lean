import Rpki.Octets

/-!
# Object identifiers

The content of an OBJECT IDENTIFIER is a list of numbers, each in octets of seven bits with the high
bit set in all but its last one.  Two identifiers are equal when their octets are.

The dotted text is for people only.  It computes in 32 bits, so a number of five octets loses its
highest bits, and it does not write out numbers that would lose more than these.
-/

set_option autoImplicit false

namespace Rpki

namespace Der

/-- The content of an OBJECT IDENTIFIER. -/
structure Oid where
  octets : Octets
deriving DecidableEq

namespace Oid

/-- Reads the content of an OBJECT IDENTIFIER, which has to end with the end of a number. -/
def read? (content : Octets) : Option Oid :=
  match content.getLast? with
  | none => none
  | some last => if last < 0x80 then some ⟨content⟩ else none

/-! ## The identifiers in use -/

/-- `id-sha256`, the one digest algorithm of manifests. -/
def sha256 : Oid := ⟨[0x60, 0x86, 0x48, 0x01, 0x65, 0x03, 0x04, 0x02, 0x01]⟩

/-- `id-ct-rpkiManifest`, the content type of manifests. -/
def manifest : Oid := ⟨[0x2A, 0x86, 0x48, 0x86, 0xF7, 0x0D, 0x01, 0x09, 0x10, 0x01, 0x1A]⟩

/-- `id-ct-routeOriginAuthz`, the content type of route origin authorisations. -/
def routeOriginAuthz : Oid := ⟨[0x2A, 0x86, 0x48, 0x86, 0xF7, 0x0D, 0x01, 0x09, 0x10, 0x01, 0x18]⟩

/-! ## Text -/

/-- The octets of each number.  Octets behind the last complete number are left out. -/
def groups : Octets → List Octets
  | [] => []
  | b :: rest =>
    if b < 0x80 then [b] :: groups rest
    else
      match groups rest with
      | [] => []
      | g :: gs => (b :: g) :: gs

/-- Is a number too large to be written out?  It is with more than five octets, and with four whose
first has one of its three highest bits set. -/
def isVeryLarge (group : Octets) : Bool :=
  5 < group.length || (group.length == 4 && group.headD 0 &&& 0x70 != 0)

/-- The value of a number in 32 bits. -/
def component (group : Octets) : UInt32 :=
  group.foldl (fun n b ↦ (n <<< 7) ||| (b &&& 0x7F).toUInt32) 0

/-- The text of a number that is not the first one. -/
def componentText (group : Octets) : String :=
  if isVeryLarge group then "(very large component)" else toString (component group)

/-- The text of the first number, which stands for two components. -/
def firstText (group : Octets) : String :=
  if isVeryLarge group then "(very large component).(very large component)"
  else
    let n := component group
    if n < 40 then s!"0.{n}" else if n < 80 then s!"1.{n - 40}" else s!"2.{n - 80}"

/-- The dotted text of an identifier. -/
def text (o : Oid) : String :=
  match groups o.octets with
  | [] => ""
  | first :: rest => ".".intercalate (firstText first :: rest.map componentText)

end Oid

end Der

end Rpki
