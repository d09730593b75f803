import Rpki.Log
import Rpki.Roa.Content
import Rpki.Transfer.Error

/-!
# Route origin authorisations

A ROA is the content of a signed object together with where it came from, whom it belongs to, and
when its certificate expires.  As with manifests, a ROA that is put together from parts is held by
`Roa.check` to the rules that one read from a signed object keeps; `WellFormed` says what they are.
-/

set_option autoImplicit false

namespace Rpki

/-- A route origin authorisation. -/
structure Roa where
  /-- Where the signed object came from, for messages. -/
  path : String
  /-- The autonomous system that may announce the prefixes. -/
  asId : UInt32
  prefixes : List Prefix
  /-- The subject key identifier of its certificate. -/
  ski : String
  /-- The authority key identifier of its certificate. -/
  aki : String
  /-- Where the certificate of the issuer is published. -/
  aia : Option String
  /-- The end of the validity of its certificate. -/
  expires : Time
deriving DecidableEq

namespace Roa

/-! ## Rules -/

/-- The rules for ROAs. -/
structure WellFormed (r : Roa) : Prop where
  isValid_of_mem : ∀ p ∈ r.prefixes, p.isValid = true
  ski_ne : r.ski ≠ ""
  aki_ne : r.aki ≠ ""
  aia_ne : r.aia ≠ some ""

/-- Names the first rule that a ROA breaks. -/
def check (r : Roa) : Except BrokenRule Unit :=
  if ∃ p ∈ r.prefixes, p.isValid = false then .error .roaPrefix
  else if r.aki = "" ∨ r.ski = "" then .error .missingKeyIdentifier
  else if r.aia = some "" then .error .emptyIssuerLocation
  else .ok ()

theorem check_eq_ok_iff (r : Roa) : r.check = .ok () ↔ r.WellFormed := by
  constructor
  · intro h
    unfold check at h
    split at h
    · contradiction
    split at h
    · contradiction
    split at h
    · contradiction
    rename_i hp hk ha
    refine ⟨fun p hm ↦ ?_, fun hs ↦ hk (.inr hs), fun ha ↦ hk (.inl ha), ha⟩
    cases hv : p.isValid with
    | false => exact absurd ⟨p, hm, hv⟩ hp
    | true => rfl
  · intro ⟨hp, hs, ha, hi⟩
    unfold check
    rw [if_neg fun ⟨p, hm, hv⟩ ↦ by simp [hp p hm] at hv, if_neg fun h ↦ h.elim ha hs, if_neg hi]

/-! ## Signed objects -/

/-- The ROA in the content of a signed object. -/
def ofSigned (path : String) (signed : SignedContent) : Except ParseError Roa := do
  let ids ← KeyIds.ofCertificate signed.certificate
  let content ← RoaContent.decode signed.content
  return ⟨path, content.asId, content.prefixes, ids.ski, ids.aki, ids.aia,
    signed.certificate.notAfter⟩

/-- The line that is logged for the result of reading a ROA. -/
def resultLog (path : String) : Except ParseError Roa → List LogEntry
  | .ok r => [⟨.debug, s!"{path}: ROA for AS{r.asId} with {r.prefixes.length} prefixes"⟩]
  | .error e => [⟨.warning, s!"{path}: {e.message}"⟩]

variable {m : Type → Type} [Monad m]

/-- Reads the ROA in a signed object, and returns its certificate too. -/
def parseWithCertificate (unwrap : Unwrapper m) (data : Octets) (path : String) :
    m (Logged (Except ParseError (Certificate × Roa))) := do
  let opened ← unwrap data .routeOriginAuthz
  let result := do
    let signed ← opened.mapError .envelope
    let roa ← ofSigned path signed
    return (signed.certificate, roa)
  return ⟨result, resultLog path (result.map (·.2))⟩

/-- Reads the ROA in a signed object. -/
def parse (unwrap : Unwrapper m) (data : Octets) (path : String) :
    m (Logged (Except ParseError Roa)) := do
  let read ← parseWithCertificate unwrap data path
  return read.map (Except.map Prod.snd)

end Roa

end Rpki
