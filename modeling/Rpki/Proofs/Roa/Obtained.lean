import Rpki.Proofs.Roa.Shape

/-!
# Wherever a route origin authorisation comes from

ROAs have the same three sources as manifests: signed objects, the transfer form, and JSON.
`Roa.IsObtained` says that a ROA has come from one of them, and `Roa.IsObtained.wellFormed` that it
keeps the rules whichever it is.  The shape of the list of prefixes is not among the rules, because
only the first of the sources has it.
-/

set_option autoImplicit false

namespace Rpki

namespace Roa

/-- **The ROAs in JSON** are the members that keep the rules. -/
theorem ofJson_eq_ok_iff {j : Json} {r : Roa} :
    ofJson j = .ok r ↔ members? j = some r ∧ r.WellFormed := by
  rw [ofJson]
  cases members? j with
  | none => simp only [reduceCtorEq, false_and]
  | some fields =>
    simp only [mapError_eq_ok_iff, ofFields_eq_ok_iff, Option.some.injEq]
    refine ⟨fun h ↦ ?_, fun h ↦ ?_⟩
    · obtain ⟨hrules, rfl⟩ := h
      exact ⟨rfl, hrules⟩
    · obtain ⟨rfl, hrules⟩ := h
      exact ⟨hrules, rfl⟩

/-- A ROA that has been read, from any of the sources there are. -/
inductive IsObtained (roa : Roa) : Prop
  /-- Read from a signed object, whoever opens the envelope. -/
  | parse {m : Type → Type} [Monad m] [LawfulMonad m] [MonadAttach m] [LawfulMonadAttach m]
      {unwrap : Unwrapper m} {data : Octets} {path : String}
      {read : Logged (Except ParseError Roa)}
      (hread : MonadAttach.CanReturn (Roa.parse unwrap data path) read)
      (hvalue : read.value = .ok roa)
  /-- Read from a signed object together with its certificate. -/
  | parseWithCertificate {m : Type → Type} [Monad m] [LawfulMonad m] [MonadAttach m]
      [LawfulMonadAttach m] {unwrap : Unwrapper m} {data : Octets} {path : String}
      {read : Logged (Except ParseError (Certificate × Roa))} {certificate : Certificate}
      (hread : MonadAttach.CanReturn (Roa.parseWithCertificate unwrap data path) read)
      (hvalue : read.value = .ok (certificate, roa))
  /-- Read from the transfer form. -/
  | ofTransfer {data : Octets} (h : Roa.ofTransfer data = .ok roa)
  /-- Read from JSON. -/
  | ofJson {j : Json} (h : Roa.ofJson j = .ok roa)

/-- **Every ROA keeps the rules**, wherever it comes from. -/
theorem IsObtained.wellFormed {roa : Roa} (h : roa.IsObtained) : roa.WellFormed := by
  cases h with
  | parse hread hvalue =>
    obtain ⟨read', certificate, hread', hvalue'⟩ := Logged.exists_of_canReturn_map_snd hread hvalue
    obtain ⟨signed, -, -, hsigned⟩ := exists_signed_of_canReturn hread' hvalue'
    exact wellFormed_of_ofSigned hsigned
  | parseWithCertificate hread hvalue =>
    obtain ⟨signed, -, -, hsigned⟩ := exists_signed_of_canReturn hread hvalue
    exact wellFormed_of_ofSigned hsigned
  | ofTransfer h => exact (ofTransfer_eq_ok_iff.mp h).1.wellFormed
  | ofJson h => exact (ofJson_eq_ok_iff.mp h).2

end Roa

end Rpki
