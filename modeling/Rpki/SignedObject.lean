import Rpki.Der.Sequence
import Rpki.Error

/-!
# Signed objects

An object of the repository is content in an envelope with a signature, and a certificate for the
key that made it.  Opening the envelope and checking signature and certificate is the work of an
`Unwrapper`, which is a parameter throughout.  The rest of the library sees the content and four
fields of the certificate.
-/

set_option autoImplicit false

namespace Rpki

/-! ## Envelopes -/

/-- The fields of a certificate that matter for the object it belongs to. -/
structure Certificate where
  /-- The subject key identifier, in hexadecimal digits. -/
  ski : Option String
  /-- The authority key identifier, in hexadecimal digits. -/
  aki : Option String
  /-- Where the certificate of the issuer is published. -/
  aia : Option String
  /-- The end of its validity. -/
  notAfter : Time
deriving DecidableEq

/-- What an envelope held. -/
structure SignedContent where
  certificate : Certificate
  content : Octets
deriving DecidableEq

/-- Opens the envelope around an object of a given content type, or says why it does not open. -/
abbrev Unwrapper (m : Type → Type) := Octets → Der.Oid → m (Except String SignedContent)

/-! ## Key identifiers -/

/-- The fields of its certificate that an object keeps. -/
structure KeyIds where
  ski : String
  aki : String
  aia : Option String
deriving DecidableEq

namespace KeyIds

/-- A text that is there and is not empty. -/
def present : Option String → Option String
  | some s => if s = "" then none else some s
  | none => none

/-- The fields an object keeps.  An empty identifier is as good as none, and so is an empty
location. -/
def ofCertificate (c : Certificate) : Except ParseError KeyIds :=
  match present c.ski, present c.aki with
  | some ski, some aki => .ok ⟨ski, aki, present c.aia⟩
  | none, _ => .error (.missingExtension .subject)
  | some _, none => .error (.missingExtension .authority)

end KeyIds

/-! ## Content -/

/-- What `item` makes of each sequence in a sequence of them, from a position on.  The first one
that is no sequence, or of which `item` makes an error, ends the reading. -/
def readEach {α : Type} (f : Field) (item : Der.Sequence → Except ParseError α) :
    Nat → Der.Sequence → Except ParseError (List α)
  | _, [] => .ok []
  | position, e :: es => do
    let s ← inField f (e.sequence position)
    let a ← item s
    let as ← readEach f item (position + 1) es
    return a :: as

/-- The error for content that starts with a version.  There is only one version, and being the
default it has to be left out, so a version is an error whatever it says.  It is read all the
same, in order to name it. -/
def explicitVersion (s : Der.Sequence) : ParseError :=
  let version : Except ParseError Int := do
    let inner ← inField .version (s.explicit0 0)
    let _ ← inField .version (inner.checkCount [1])
    let number ← inField .version (inner.integer 0)
    match number.toSigned64? with
    | some v => return v
    | none => inField .version (Der.fail (.badValue 0 .integer .versionOutOfRange))
  match version with
  | .ok v => .semantic (.unsupportedVersion v)
  | .error e => e

end Rpki
