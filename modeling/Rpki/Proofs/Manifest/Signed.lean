import Rpki.Manifest.Draft
import Rpki.Manifest.Signed
import Rpki.Proofs.Manifest.Content
import Rpki.Proofs.Manifest.Transfer

/-!
# Manifests from signed objects can be transferred

A manifest that has been read from a signed object keeps every rule that the transfer form is held
to, without any of them being checked on the way: the window comes from GeneralizedTimes and so has
whole seconds, names are ASCII and plain, an empty location is none, and the lengths in DER are
below 2³².  What is left to be assumed are the lengths of texts from outside, which are the path and
the texts of the certificate.

`Manifest.ofSigned_eq_ok_iff` takes reading apart for both of its outcomes, for manifests that are
out of date and for current ones, and `Manifest.isTransferable_of_ofSigned` is what follows from
it.
-/

set_option autoImplicit false

namespace Rpki

namespace Manifest

/-! ## Reading -/

/-- **What a manifest is read from.**  Without a file list it is out of date, and with one it is
current. -/
theorem ofSigned_eq_ok_iff {path : String} {now : Time} {signed : SignedContent} {m : Manifest} :
    ofSigned path now signed = .ok m ↔
      ∃ ids head, KeyIds.ofCertificate signed.certificate = .ok ids ∧
        ManifestContent.Head.decode signed.content = .ok head ∧
        ((head.window.check now = .stale ∧
            ⟨path, head.number, head.window, true, [], ids.ski, ids.aki, ids.aia⟩ = m) ∨
          (head.window.check now = .current ∧ ∃ files, head.files = .ok files ∧
            ⟨path, head.number, head.window, false, files, ids.ski, ids.aki, ids.aia⟩ = m)) := by
  simp only [ofSigned, bind_eq_ok_iff]
  refine ⟨fun h ↦ ?_, fun h ↦ ?_⟩
  · obtain ⟨ids, hids, head, hhead, h⟩ := h
    refine ⟨ids, head, hids, hhead, ?_⟩
    cases hcheck : head.window.check now with
    | tooEarly =>
      rw [hcheck] at h
      exact nomatch h
    | stale =>
      rw [hcheck] at h
      exact .inl ⟨rfl, pure_eq_ok_iff.mp h⟩
    | current =>
      rw [hcheck] at h
      simp only [bind_eq_ok_iff, pure_eq_ok_iff] at h
      exact .inr ⟨rfl, h⟩
  · obtain ⟨ids, head, hids, hhead, ⟨hcheck, rfl⟩ | ⟨hcheck, files, hfiles, rfl⟩⟩ := h
    · refine ⟨ids, hids, head, hhead, ?_⟩
      rw [hcheck]
      exact pure_eq_ok_iff.mpr rfl
    · refine ⟨ids, hids, head, hhead, ?_⟩
      rw [hcheck]
      simp only [bind_eq_ok_iff, pure_eq_ok_iff]
      exact ⟨files, hfiles, rfl⟩

/-- **A manifest from a signed object keeps the rules**, none of which is checked as such when it is
read. -/
theorem wellFormed_of_ofSigned {path : String} {now : Time} {signed : SignedContent} {m : Manifest}
    (h : ofSigned path now signed = .ok m) : m.WellFormed := by
  obtain ⟨ids, head, hids, hhead, hm⟩ := ofSigned_eq_ok_iff.mp h
  obtain ⟨hski, haki, haia⟩ := KeyIds.ne_empty hids
  obtain ⟨-, -, -, -, -, hwindow⟩ := ManifestContent.Head.decode_eq_ok_iff.mp hhead
  rcases hm with ⟨-, rfl⟩ | ⟨-, files, hfiles, rfl⟩
  · exact ⟨fun _ ↦ rfl, by simp, hski, haki, haia, hwindow.le⟩
  · obtain ⟨-, -, hentries⟩ := ManifestContent.Head.files_eq_ok_iff.mp hfiles
    exact ⟨nofun, fun e he ↦ (hentries e he).1.isValid, hski, haki, haia, hwindow.le⟩

/-- **A manifest from a signed object can be transferred**, unless a text from outside is too
long. -/
theorem isTransferable_of_ofSigned {path : String} {now : Time} {signed : SignedContent}
    {m : Manifest} (h : ofSigned path now signed = .ok m) (hpath : path.utf8ByteSize < 2 ^ 64)
    (hcert : signed.certificate.FitsTransfer) : m.IsTransferable := by
  have hrules := wellFormed_of_ofSigned h
  obtain ⟨ids, head, hids, hhead, hm⟩ := ofSigned_eq_ok_iff.mp h
  obtain ⟨-, -, -, -, -, hwindow⟩ := ManifestContent.Head.decode_eq_ok_iff.mp hhead
  obtain ⟨hski, haki, haia⟩ := KeyIds.lengths_lt hids hcert
  rcases hm with ⟨-, rfl⟩ | ⟨-, files, hfiles, rfl⟩
  · exact ⟨hrules, hwindow.thisNanos, hwindow.nextNanos, hpath, by simp, by simp, hski, haki, haia⟩
  · obtain ⟨hcount, hnames⟩ := ManifestContent.Head.lengths_lt hhead hfiles
    have hlong : (2 : Nat) ^ 32 < 2 ^ 64 := by decide
    exact ⟨hrules, hwindow.thisNanos, hwindow.nextNanos, hpath, Nat.lt_trans hcount hlong,
      fun e he ↦ Nat.lt_trans (hnames e he) hlong, hski, haki, haia⟩

/-! ## Opening the envelope -/

variable {m : Type → Type} [Monad m] [LawfulMonad m] [MonadAttach m] [LawfulMonadAttach m]
  {unwrap : Unwrapper m} {data : Octets} {path : String} {now : Time}
  {read : Logged (Except ParseError (Certificate × Manifest))}

/-- A manifest with a certificate is returned only for an envelope that has been opened. -/
theorem exists_signed_of_canReturn {certificate : Certificate} {manifest : Manifest}
    (hread : MonadAttach.CanReturn (parseWithCertificate unwrap data path now) read)
    (hvalue : read.value = .ok (certificate, manifest)) :
    ∃ signed, MonadAttach.CanReturn (unwrap data .manifest) (.ok signed) ∧
      signed.certificate = certificate ∧ ofSigned path now signed = .ok manifest :=
  SignedContent.exists_of_canReturn hread hvalue

/-- **A manifest that has been read comes back from its transfer form** with every field as it was,
be it out of date or not, whoever opens the envelope. -/
theorem ofTransfer_toTransfer_of_parse {certificate : Certificate} {manifest : Manifest}
    (hread : MonadAttach.CanReturn (parseWithCertificate unwrap data path now) read)
    (hvalue : read.value = .ok (certificate, manifest))
    (hpath : path.utf8ByteSize < 2 ^ 64) (hcert : certificate.FitsTransfer) :
    ofTransfer manifest.toTransfer = .ok manifest := by
  obtain ⟨signed, -, rfl, hsigned⟩ := exists_signed_of_canReturn hread hvalue
  exact ofTransfer_eq_ok_iff.mpr ⟨isTransferable_of_ofSigned hsigned hpath hcert, rfl⟩

/-- A current manifest with one file, in an envelope that holds what is written for a draft. -/
theorem ofTransfer_toTransfer_of_parse_one_file :
    let a : Time := ⟨1631880000, 0, by decide, by decide, by decide⟩
    let b : Time := ⟨1631966400, 0, by decide, by decide, by decide⟩
    let certificate : Certificate := ⟨some "AB", some "CD", some "", b⟩
    let draft : Draft := ⟨.ofNat 200, a, b, [("a.roa", List.replicate 32 0xAB)]⟩
    let unwrap : Unwrapper Id := fun _ _ ↦ pure (.ok ⟨certificate, draft.octets⟩)
    let manifest : Manifest :=
      ⟨"a.mft", .ofNat 200, ⟨a, b⟩, false, [⟨"a.roa", List.replicate 32 0xAB, rfl⟩],
       "AB", "CD", none⟩
    let read := (parseWithCertificate unwrap [] "a.mft" a).run
    MonadAttach.CanReturn (parseWithCertificate unwrap [] "a.mft" a) read ∧
      read.value = .ok (certificate, manifest) ∧ "a.mft".utf8ByteSize < 2 ^ 64 ∧
      certificate.FitsTransfer ∧ ofTransfer manifest.toTransfer = .ok manifest := by
  intro a b certificate draft unwrap manifest read
  have hread : MonadAttach.CanReturn (parseWithCertificate unwrap [] "a.mft" a) read := rfl
  have hvalue : read.value = .ok (certificate, manifest) := by decide +kernel +zetaReduce
  have hpath : "a.mft".utf8ByteSize < 2 ^ 64 := by decide +kernel
  have hcert : certificate.FitsTransfer := by decide +kernel +zetaReduce
  exact ⟨hread, hvalue, hpath, hcert, ofTransfer_toTransfer_of_parse hread hvalue hpath hcert⟩

end Manifest

end Rpki
