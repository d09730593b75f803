/-!
# Errors of the transfer form

Why octets are not the transfer form of an object, and which rule an object breaks that was put
together from parts instead of being read from a signed object.  The second kind is a type of its
own, `BrokenRule`, because objects in JSON are held to the same rules.
-/

set_option autoImplicit false

namespace Rpki

/-- The rules that every object keeps. -/
inductive BrokenRule
  /-- A manifest that is out of date lists files. -/
  | filesInStaleManifest
  | fileName
  /-- One of the key identifiers is empty. -/
  | missingKeyIdentifier
  /-- The location of the issuer's certificate is there and is empty. -/
  | emptyIssuerLocation
  | updateInterval
  | addressFamily
  | roaPrefix
deriving DecidableEq

namespace BrokenRule

/-- The text of a broken rule. -/
def message : BrokenRule → String
  | filesInStaleManifest => "files in stale manifest"
  | fileName => "invalid file name"
  | missingKeyIdentifier => "missing key identifier"
  | emptyIssuerLocation => "empty CA issuers URI"
  | updateInterval => "bad update interval"
  | addressFamily => "invalid address family"
  | roaPrefix => "invalid ROA prefix"

end BrokenRule

/-- Why octets are not the transfer form of an object. -/
inductive TransferError
  /-- More octets were needed than there were left. -/
  | truncated (needed remaining : Nat)
  | badFlag (flag : Int32)
  | badString
  | badTime (seconds : Int64)
  | badValue (rule : BrokenRule)
  /-- There are so many octets behind the object. -/
  | trailingData (octets : Nat)
deriving DecidableEq

namespace TransferError

/-- Was it a lack of octets? -/
def isTruncated : TransferError → Bool
  | truncated _ _ => true
  | _ => false

/-- The text of an error. -/
def message : TransferError → String
  | truncated needed remaining => s!"truncated data: need {needed} octets, have {remaining}"
  | badFlag flag => s!"invalid flag value {flag}"
  | badString => "string is not valid UTF-8"
  | badTime seconds => s!"invalid time value {seconds}"
  | badValue rule => rule.message
  | trailingData octets => s!"{octets} octets of trailing data"

end TransferError

end Rpki
