import Rpki.Proofs.Manifest.Fields
import Rpki.Proofs.Manifest.Signed

/-!
# Wherever a manifest comes from

There are three sources of manifests: signed objects, the transfer form, and JSON.  Each is read by
code of its own, and the rules are held up in different places, by the parts a manifest is read from
or by `Manifest.check` on the whole.  `Manifest.IsObtained` says that a manifest has come from one
of them, and `Manifest.IsObtained.wellFormed` that it does not matter which: the rules are kept.

A manifest put together in any other way need not keep them, so what is proved of manifests that are
handed on has this as its condition.
-/

set_option autoImplicit false

namespace Rpki

namespace Manifest

/-- A manifest that has been read, from any of the sources there are. -/
inductive IsObtained (manifest : Manifest) : Prop
  /-- Read from a signed object, at any time, whoever opens the envelope. -/
  | parse {m : Type → Type} [Monad m] [LawfulMonad m] [MonadAttach m] [LawfulMonadAttach m]
      {unwrap : Unwrapper m} {data : Octets} {path : String} {now : Time}
      {read : Logged (Except ParseError Manifest)}
      (hread : MonadAttach.CanReturn (Manifest.parse unwrap data path now) read)
      (hvalue : read.value = .ok manifest)
  /-- Read from a signed object together with its certificate. -/
  | parseWithCertificate {m : Type → Type} [Monad m] [LawfulMonad m] [MonadAttach m]
      [LawfulMonadAttach m] {unwrap : Unwrapper m} {data : Octets} {path : String} {now : Time}
      {read : Logged (Except ParseError (Certificate × Manifest))} {certificate : Certificate}
      (hread : MonadAttach.CanReturn (Manifest.parseWithCertificate unwrap data path now) read)
      (hvalue : read.value = .ok (certificate, manifest))
  /-- Read from the transfer form. -/
  | ofTransfer {data : Octets} (h : Manifest.ofTransfer data = .ok manifest)
  /-- Read from JSON. -/
  | ofJson {j : Json} (h : Manifest.ofJson j = .ok manifest)

/-- A manifest without its certificate is one that was read with it. -/
theorem exists_certificate_of_canReturn {m : Type → Type} [Monad m] [LawfulMonad m] [MonadAttach m]
    [LawfulMonadAttach m] {unwrap : Unwrapper m} {data : Octets} {path : String} {now : Time}
    {read : Logged (Except ParseError Manifest)} {manifest : Manifest}
    (hread : MonadAttach.CanReturn (parse unwrap data path now) read)
    (hvalue : read.value = .ok manifest) :
    ∃ read' certificate,
      MonadAttach.CanReturn (parseWithCertificate unwrap data path now) read' ∧
        read'.value = .ok (certificate, manifest) :=
  Logged.exists_of_canReturn_map_snd hread hvalue

/-- **Every manifest keeps the rules**, wherever it comes from. -/
theorem IsObtained.wellFormed {manifest : Manifest} (h : manifest.IsObtained) :
    manifest.WellFormed := by
  cases h with
  | parse hread hvalue =>
    obtain ⟨read', certificate, hread', hvalue'⟩ := exists_certificate_of_canReturn hread hvalue
    obtain ⟨signed, -, -, hsigned⟩ := exists_signed_of_canReturn hread' hvalue'
    exact wellFormed_of_ofSigned hsigned
  | parseWithCertificate hread hvalue =>
    obtain ⟨signed, -, -, hsigned⟩ := exists_signed_of_canReturn hread hvalue
    exact wellFormed_of_ofSigned hsigned
  | ofTransfer h => exact (ofTransfer_eq_ok_iff.mp h).1.wellFormed
  | ofJson h => exact (ofJson_eq_ok_iff.mp h).2

end Manifest

end Rpki
