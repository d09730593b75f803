import Rpki.Manifest.Content
import Rpki.Transfer.Error

/-!
# Manifests

A manifest is the content of a signed object together with where it came from, whom it belongs to,
and whether it was out of date when it was read.  A manifest that was lists no files.

A manifest read from a signed object keeps all rules.  One that is put together from parts, as
those in the transfer form and in JSON are, is held to them by `Manifest.check`.  `WellFormed` says
what the rules are, and `Manifest.check_eq_ok_iff` that they are what is checked.
-/

set_option autoImplicit false

namespace Rpki

/-- A manifest. -/
structure Manifest where
  /-- Where the signed object came from, for messages. -/
  path : String
  number : ManifestNumber
  window : ValidityWindow
  /-- Was it out of date when it was read? -/
  stale : Bool
  /-- The files in the order of the list. -/
  files : List FileEntry
  /-- The subject key identifier of its certificate. -/
  ski : String
  /-- The authority key identifier of its certificate. -/
  aki : String
  /-- Where the certificate of the issuer is published. -/
  aia : Option String
deriving DecidableEq

namespace Manifest

/-- The rules for manifests. -/
structure WellFormed (m : Manifest) : Prop where
  files_eq_nil : m.stale = true → m.files = []
  isValid_of_mem : ∀ e ∈ m.files, FileName.isValid e.file = true
  ski_ne : m.ski ≠ ""
  aki_ne : m.aki ≠ ""
  aia_ne : m.aia ≠ some ""
  update_le : m.window.thisUpdate ≤ m.window.nextUpdate

/-- Names the first rule that a manifest breaks. -/
def check (m : Manifest) : Except BrokenRule Unit :=
  if m.stale ∧ m.files ≠ [] then .error .filesInStaleManifest
  else if ∃ e ∈ m.files, FileName.isValid e.file = false then .error .fileName
  else if m.aki = "" ∨ m.ski = "" then .error .missingKeyIdentifier
  else if m.aia = some "" then .error .emptyIssuerLocation
  else if m.window.nextUpdate < m.window.thisUpdate then .error .updateInterval
  else .ok ()

theorem check_eq_ok_iff (m : Manifest) : m.check = .ok () ↔ m.WellFormed := by
  constructor
  · intro h
    unfold check at h
    split at h
    · contradiction
    split at h
    · contradiction
    split at h
    · contradiction
    split at h
    · contradiction
    split at h
    · contradiction
    rename_i hs hf hk ha hw
    refine ⟨fun st ↦ ?_, fun e he ↦ ?_, fun hs ↦ hk (.inr hs), fun ha ↦ hk (.inl ha), ha, hw⟩
    · exact Decidable.byContradiction fun hn ↦ hs ⟨st, hn⟩
    · cases hv : FileName.isValid e.file with
      | false => exact absurd ⟨e, he, hv⟩ hf
      | true => rfl
  · intro ⟨hs, hf, hk, ha, hi, hw⟩
    unfold check
    rw [if_neg fun ⟨st, hn⟩ ↦ hn (hs st), if_neg fun ⟨e, he, hv⟩ ↦ by simp [hf e he] at hv,
      if_neg fun h ↦ h.elim ha hk, if_neg hi, if_neg hw]

end Manifest

end Rpki
