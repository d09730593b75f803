import Rpki.Proofs.Roa.Content
import Rpki.Proofs.Roa.Transfer

/-!
# Route origin authorisations from signed objects lose only a fraction of a second

A ROA that has been read from a signed object keeps every rule that the transfer form is held to,
as a manifest does, with one exception.  Its time of expiry is the one of the certificate, which is
taken as it is, and the transfer form has whole seconds.  So what comes back is the ROA with the
whole second of its expiry, and it is the same ROA exactly if there was nothing behind the second.

`Roa.isTransferable_of_ofSigned` says that nothing else stands in the way, for any number of
prefixes: each is made of an entry of an attestation, and there are not more of them than octets.
-/

set_option autoImplicit false

namespace Rpki

namespace Roa

/-! ## Reading -/

/-- **What a ROA is read from.** -/
theorem ofSigned_eq_ok_iff {path : String} {signed : SignedContent} {r : Roa} :
    ofSigned path signed = .ok r ↔
      ∃ ids content, KeyIds.ofCertificate signed.certificate = .ok ids ∧
        RoaContent.decode signed.content = .ok content ∧
        ⟨path, content.asId, content.prefixes, ids.ski, ids.aki, ids.aia,
          signed.certificate.notAfter⟩ = r := by
  simp only [ofSigned, bind_eq_ok_iff, pure_eq_ok_iff]
  refine ⟨fun h ↦ ?_, fun h ↦ ?_⟩
  · obtain ⟨ids, hids, content, hcontent, hr⟩ := h
    exact ⟨ids, content, hids, hcontent, hr⟩
  · obtain ⟨ids, content, hids, hcontent, hr⟩ := h
    exact ⟨ids, hids, content, hcontent, hr⟩

/-- **A ROA from a signed object keeps the rules**, none of which is checked as such when it is
read. -/
theorem wellFormed_of_ofSigned {path : String} {signed : SignedContent} {r : Roa}
    (h : ofSigned path signed = .ok r) : r.WellFormed := by
  obtain ⟨ids, content, hids, hcontent, rfl⟩ := ofSigned_eq_ok_iff.mp h
  obtain ⟨hski, haki, haia⟩ := KeyIds.ne_empty hids
  exact ⟨(RoaContent.prefixes_of_decode hcontent).1, hski, haki, haia⟩

/-- **A ROA from a signed object can be transferred** with the whole second of its expiry, unless a
text from outside is too long. -/
theorem isTransferable_of_ofSigned {path : String} {signed : SignedContent} {r : Roa}
    (h : ofSigned path signed = .ok r) (hpath : path.utf8ByteSize < 2 ^ 64)
    (hcert : signed.certificate.FitsTransfer) :
    IsTransferable { r with expires := r.expires.wholeSecond } := by
  obtain ⟨hprefixes, hskine, hakine, haiane⟩ := wellFormed_of_ofSigned h
  obtain ⟨ids, content, hids, hcontent, rfl⟩ := ofSigned_eq_ok_iff.mp h
  obtain ⟨hski, haki, haia⟩ := KeyIds.lengths_lt hids hcert
  have hcount : content.prefixes.length < 2 ^ 64 :=
    Nat.lt_trans (RoaContent.prefixes_of_decode hcontent).2 (by decide)
  exact ⟨⟨hprefixes, hskine, hakine, haiane⟩, rfl, hpath, hcount, hski, haki, haia⟩

/-! ## Whole seconds -/

/-- What is behind the second in which a ROA expires is not written. -/
theorem toTransfer_wholeSecond (r : Roa) :
    toTransfer { r with expires := r.expires.wholeSecond } = r.toTransfer := rfl

/-- A ROA expires at a whole second exactly if nothing is lost by leaving out what is behind it. -/
theorem wholeSecond_eq_self_iff (r : Roa) :
    { r with expires := r.expires.wholeSecond } = r ↔ r.expires.nanos = 0 := by
  rw [← Time.wholeSecond_eq_self_iff]
  refine ⟨fun h ↦ ?_, fun h ↦ ?_⟩
  · rw [← h]
    rfl
  · rw [h]

/-! ## Opening the envelope -/

variable {m : Type → Type} [Monad m] [LawfulMonad m] [MonadAttach m] [LawfulMonadAttach m]
  {unwrap : Unwrapper m} {data : Octets} {path : String}
  {read : Logged (Except ParseError (Certificate × Roa))}

/-- A ROA with a certificate is returned only for an envelope that has been opened. -/
theorem exists_signed_of_canReturn {certificate : Certificate} {roa : Roa}
    (hread : MonadAttach.CanReturn (parseWithCertificate unwrap data path) read)
    (hvalue : read.value = .ok (certificate, roa)) :
    ∃ signed, MonadAttach.CanReturn (unwrap data .routeOriginAuthz) (.ok signed) ∧
      signed.certificate = certificate ∧ ofSigned path signed = .ok roa :=
  SignedContent.exists_of_canReturn hread hvalue

/-- **A ROA that has been read comes back from its transfer form** with the whole second of its
expiry and every other field as it was, whoever opens the envelope.  So it comes back as it was
exactly if its certificate expires at a whole second. -/
theorem ofTransfer_toTransfer_wholeSecond {certificate : Certificate} {roa : Roa}
    (hread : MonadAttach.CanReturn (parseWithCertificate unwrap data path) read)
    (hvalue : read.value = .ok (certificate, roa))
    (hpath : path.utf8ByteSize < 2 ^ 64) (hcert : certificate.FitsTransfer) :
    roa.expires = certificate.notAfter ∧
      ofTransfer roa.toTransfer = .ok { roa with expires := roa.expires.wholeSecond } ∧
      (ofTransfer roa.toTransfer = .ok roa ↔ certificate.notAfter.nanos = 0) := by
  obtain ⟨signed, -, rfl, hsigned⟩ := exists_signed_of_canReturn hread hvalue
  have hexpires : roa.expires = signed.certificate.notAfter := by
    obtain ⟨_, _, -, -, rfl⟩ := ofSigned_eq_ok_iff.mp hsigned
    rfl
  have hback : ofTransfer roa.toTransfer = .ok { roa with expires := roa.expires.wholeSecond } :=
    ofTransfer_eq_ok_iff.mpr
      ⟨isTransferable_of_ofSigned hsigned hpath hcert, toTransfer_wholeSecond roa⟩
  refine ⟨hexpires, hback, ?_⟩
  rw [hback, Except.ok.injEq, wholeSecond_eq_self_iff, hexpires]

/-- One prefix, and a certificate that expires half a second after a whole one. -/
theorem ofTransfer_toTransfer_wholeSecond_one_prefix :
    let content : Octets :=
      [0x30, 0x15, 0x02, 0x03, 0x00, 0xFD, 0xE8, 0x30, 0x0E, 0x30, 0x0C, 0x04, 0x02, 0x00, 0x01,
       0x30, 0x06, 0x30, 0x04, 0x03, 0x02, 0x00, 0x0A]
    let a : Time := ⟨1631966400, 0, by decide, by decide, by decide⟩
    let b : Time := ⟨1631966400, 500000000, by decide, by decide, by decide⟩
    let certificate : Certificate := ⟨some "AB", some "CD", some "", b⟩
    let unwrap : Unwrapper Id := fun _ _ ↦ pure (.ok ⟨certificate, content⟩)
    let p : Prefix := ⟨.ipv4, .v4 ⟨[10, 0, 0, 0], rfl⟩, 8, 8⟩
    let roa : Roa := ⟨"a.roa", 65000, [p], "AB", "CD", none, b⟩
    let read := (parseWithCertificate unwrap [] "a.roa").run
    MonadAttach.CanReturn (parseWithCertificate unwrap [] "a.roa") read ∧
      read.value = .ok (certificate, roa) ∧ "a.roa".utf8ByteSize < 2 ^ 64 ∧
      certificate.FitsTransfer ∧
      ofTransfer roa.toTransfer = .ok ⟨"a.roa", 65000, [p], "AB", "CD", none, a⟩ := by
  intro content a b certificate unwrap p roa read
  have hread : MonadAttach.CanReturn (parseWithCertificate unwrap [] "a.roa") read := rfl
  have hvalue : read.value = .ok (certificate, roa) := by decide +kernel +zetaReduce
  have hpath : "a.roa".utf8ByteSize < 2 ^ 64 := by decide +kernel
  have hcert : certificate.FitsTransfer := by decide +kernel +zetaReduce
  exact ⟨hread, hvalue, hpath, hcert,
    (ofTransfer_toTransfer_wholeSecond hread hvalue hpath hcert).2.1⟩

/-- **The fraction is lost.**  A ROA whose certificate expires half a second after a whole one does
not come back as it was. -/
theorem fraction_lost_in_transfer :
    let content : Octets :=
      [0x30, 0x15, 0x02, 0x03, 0x00, 0xFD, 0xE8, 0x30, 0x0E, 0x30, 0x0C, 0x04, 0x02, 0x00, 0x01,
       0x30, 0x06, 0x30, 0x04, 0x03, 0x02, 0x00, 0x0A]
    let b : Time := ⟨1631966400, 500000000, by decide, by decide, by decide⟩
    let certificate : Certificate := ⟨some "AB", some "CD", none, b⟩
    let unwrap : Unwrapper Id := fun _ _ ↦ pure (.ok ⟨certificate, content⟩)
    let p : Prefix := ⟨.ipv4, .v4 ⟨[10, 0, 0, 0], rfl⟩, 8, 8⟩
    let roa : Roa := ⟨"a.roa", 65000, [p], "AB", "CD", none, b⟩
    let read := (parseWithCertificate unwrap [] "a.roa").run
    MonadAttach.CanReturn (parseWithCertificate unwrap [] "a.roa") read ∧
      read.value = .ok (certificate, roa) ∧ ofTransfer roa.toTransfer ≠ .ok roa := by
  intro content b certificate unwrap p roa read
  have hvalue : read.value = .ok (certificate, roa) := by decide +kernel +zetaReduce
  have hlost : ofTransfer roa.toTransfer ≠ .ok roa := by decide +kernel +zetaReduce
  exact ⟨rfl, hvalue, hlost⟩

end Roa

end Rpki
