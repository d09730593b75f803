import Rpki.Der.Error
import Rpki.Der.Oid
import Rpki.Validity

/-!
# Errors of signed objects

Why a signed object is refused.  `SemanticError` is about values that have the right shape and are
not acceptable, and `ParseError` puts it together with the ways a whole object can fail: its
envelope, its certificate, its structure, its values, its time.

An object that is out of date is not an error.  One that is not valid yet is.
-/

set_option autoImplicit false

namespace Rpki

/-! ## Values -/

/-- Why a well-formed value is not acceptable. -/
inductive SemanticError
  /-- The content has a version of its own, which no content may have. -/
  | unsupportedVersion (version : Int)
  | negativeNumber
  /-- The manifest number has so many octets without its leading zeros. -/
  | numberTooLong (octets : Nat)
  /-- The hashes of the files are not of the one algorithm allowed. -/
  | hashAlgorithm (found : Der.Oid)
  | nameNotAscii
  /-- The file name has path components. -/
  | nameNotPlain (name : String)
  /-- The file name has no room for a suffix. -/
  | nameTooShort (name : String)
  /-- The hash has so many octets. -/
  | hashLength (octets : Nat)
  | time (error : MalformedTime)
  | asIdOutOfRange
  | unknownFamily
  | repeatedFamily
  | noPrefixes
  /-- The prefix has so many bits, or it has bits behind its end. -/
  | prefixLength (bits : Nat)
  /-- The maximum length does not fit the prefix.  It is missing if it is out of all range. -/
  | maxLength (bits : Nat) (maxLength : Option Nat)
deriving DecidableEq

namespace SemanticError

/-- The text of an error. -/
def message : SemanticError → String
  | unsupportedVersion version =>
    if version = 0 then "incorrect encoding for version 0"
    else s!"version {version} not supported (yet)"
  | negativeNumber => "manifestNumber: want positive integer, have negative"
  | numberTooLong octets => s!"manifestNumber: want 20 or less octets, have {octets}"
  | hashAlgorithm found => s!"fileHashAlg: want SHA256 object, have {found.text}"
  | nameNotAscii => "file name is not an ASCII string"
  | nameNotPlain name => s!"path components disallowed in filename: {name}"
  | nameTooShort name => s!"filename must be large enough for suffix part: {name}"
  | hashLength octets => s!"hash: invalid SHA256 length, have {octets}"
  | time error => error.message
  | asIdOutOfRange => "asID: out of range"
  | unknownFamily => "addressFamily: want IPv4 or IPv6"
  | repeatedFamily => "multiple blocks for one address family"
  | noPrefixes => "no prefixes in ROA"
  | prefixLength bits => s!"prefix length {bits} too large for family"
  | maxLength bits (some m) => s!"max length {m} invalid for prefix length {bits}"
  | maxLength bits none => s!"max length out of range for prefix length {bits}"

end SemanticError

/-! ## Whole objects -/

/-- The certificate extensions that an object cannot do without. -/
inductive KeyExtension
  | subject
  | authority
deriving DecidableEq

namespace KeyExtension

/-- The usual abbreviation of an extension. -/
def name : KeyExtension → String
  | subject => "SKI"
  | authority => "AKI"

end KeyExtension

/-- Why an object is refused. -/
inductive ParseError
  /-- Its envelope could not be opened, for the reason given. -/
  | envelope (reason : String)
  | missingExtension (extension : KeyExtension)
  | structural (error : StructuralError)
  | semantic (error : SemanticError)
  /-- It becomes valid at the time given. -/
  | notYetValid (start : Time)
deriving DecidableEq

namespace ParseError

/-- The text of an error. -/
def message : ParseError → String
  | envelope reason => s!"invalid signed object: {reason}"
  | missingExtension extension => s!"missing {extension.name} X509 extension"
  | structural error => error.message
  | semantic error => error.message
  | notYetValid start => s!"not yet valid, starts {start}"

end ParseError

/-! ## Raising errors -/

/-- What has been read from the elements of a field.  A fault in them is a fault in that field. -/
def inField {α : Type} (f : Field) (r : Except StructuralError α) : Except ParseError α :=
  r.mapError fun e ↦ .structural (e.within f)

/-- What has been made of a value. -/
def asValue {α : Type} (r : Except SemanticError α) : Except ParseError α :=
  r.mapError .semantic

end Rpki
