import Rpki.Manifest.Draft
import Rpki.Proofs.Manifest.FileList
import Rpki.Proofs.Manifest.Signed
import Rpki.Proofs.Version

/-!
# What a verdict says about the content

The content of a manifest can be read as such, by `ManifestContent.decode`, and as that of a signed
object at some time, by `Manifest.parse`.  The first reads everything, and the second stops at the
times unless the manifest is current.  Here the two are compared.

* Content that can be read makes a manifest at any time that is not before its window, and the time
  decides whether the files are in it (`Manifest.ofSigned_of_decode`).
* Content that cannot be read makes none that is current, and if it is refused then for the same
  error, unless the time came first (`Manifest.ofSigned_of_decode_error`).

Content that cannot be read may still make a stale manifest.  What has been read then are the number
and the window (`Manifest.exists_head_of_stale`), so the error is in what comes behind them.
`ParseError.isOfFileList` tells such errors from all others (`ManifestContent.isOfFileList_iff`).
-/

set_option autoImplicit false

namespace Rpki

open Der

/-! ## Errors of the file list -/

/-- Is the error about the part of a manifest behind the times, which is the hash algorithm, the
file list or an entry of it? -/
def ParseError.isOfFileList : ParseError → Bool
  | structural ⟨some .fileHashAlg, _⟩ | structural ⟨some .fileList, _⟩
  | structural ⟨some .fileAndHash, _⟩ => true
  | semantic (.hashAlgorithm _) | semantic .nameNotAscii | semantic (.nameNotPlain _)
  | semantic (.nameTooShort _) | semantic (.hashLength _) => true
  | _ => false

/-- What fails only for the sake of that part. -/
abbrev FailsInFileList {α : Type} (r : Except ParseError α) : Prop :=
  FailsOnly (·.isOfFileList = true) r

theorem FileName.failsInFileList_check (name : String) :
    FailsInFileList (asValue (check name)) := by
  refine failsOnly_asValue ?_
  rw [check]
  split
  · exact failsOnly_error rfl
  split
  · exact failsOnly_error rfl
  · exact failsOnly_ok ()

theorem Digest.failsInFileList_ofOctets (o : Octets) :
    FailsInFileList (asValue (ofOctets o)) := by
  refine failsOnly_asValue ?_
  rw [ofOctets]
  cases FixedOctets.ofOctets? o with
  | some d => exact failsOnly_ok d
  | none => exact failsOnly_error rfl

namespace FileEntry

theorem failsInFileList_ofElements (item : Sequence) : FailsInFileList (ofElements item) :=
  failsOnly_ofElements (P := (·.isOfFileList = true)) (fun _ _ ↦ rfl) rfl
    FileName.failsInFileList_check Digest.failsInFileList_ofOctets item

theorem failsInFileList_readList (list : Sequence) : FailsInFileList (readList list) :=
  failsOnly_readEach (fun _ ↦ rfl) failsInFileList_ofElements 0 list

end FileEntry

namespace ManifestContent

/-- What has been read up to the times can fail only for what comes behind them. -/
theorem Head.failsInFileList_files (h : Head) : FailsInFileList h.files := by
  rw [Head.files]
  refine failsOnly_bind (failsOnly_inField (h.elements.failsOnly_contentAt _ _ _) fun _ ↦ rfl)
    fun algorithm ↦ ?_
  split
  · refine failsOnly_bind (failsOnly_inField (h.elements.failsOnly_contentAt _ _ _) fun _ ↦ rfl)
      fun list ↦ ?_
    exact FileEntry.failsInFileList_readList list
  · exact failsOnly_asValue (failsOnly_error rfl)

/-- Reading up to the times never fails for what comes behind them. -/
theorem Head.failsOnly_decode (content : Octets) :
    FailsOnly (·.isOfFileList = false) (Head.decode content) := by
  rw [Head.decode]
  refine failsOnly_bind (failsOnly_inField (Sequence.failsOnly_decode content) fun _ ↦ rfl)
    fun es ↦ ?_
  refine failsOnly_bind (failsOnly_inField (es.failsOnly_checkCount _) fun _ ↦ rfl) fun count ↦ ?_
  split
  · refine failsOnly_error ?_
    exact explicitVersion_of (P := (·.isOfFileList = false)) (fun _ ↦ rfl) (fun _ ↦ rfl) es
  · refine failsOnly_bind (failsOnly_inField (es.failsOnly_contentAt _ _ _) fun _ ↦ rfl) fun i ↦ ?_
    refine failsOnly_bind ?_ fun number ↦ ?_
    · refine failsOnly_asValue ?_
      rw [ManifestNumber.ofInteger, ManifestNumber.ofOctets]
      split
      · exact failsOnly_error rfl
      split
      · exact failsOnly_ok _
      · exact failsOnly_error rfl
    refine failsOnly_bind (failsOnly_inField (es.failsOnly_contentAt _ _ _) fun _ ↦ rfl) fun a ↦ ?_
    refine failsOnly_bind (failsOnly_inField (es.failsOnly_contentAt _ _ _) fun _ ↦ rfl) fun b ↦ ?_
    refine failsOnly_bind ?_ fun window ↦ failsOnly_ok _
    exact failsOnly_asValue (failsOnly_mapError fun _ _ ↦ rfl)

/-- Behind the times, reading the content is reading the file list. -/
theorem decode_of_head {content : Octets} {head : Head} (hhead : Head.decode content = .ok head) :
    decode content = (⟨head.number, head.window, ·⟩) <$> head.files := by
  rw [decode, hhead]
  rfl

/-- Content cannot be read for an error in one of the two steps. -/
theorem decode_eq_error_iff {content : Octets} {e : ParseError} :
    decode content = .error e ↔
      Head.decode content = .error e ∨
        ∃ head, Head.decode content = .ok head ∧ head.files = .error e := by
  rw [decode, bind_eq_error_iff]
  refine or_congr_right (exists_congr fun head ↦ and_congr_right fun _ ↦ ?_)
  rw [bind_eq_error_iff]
  refine or_iff_left ?_
  rintro ⟨files, -, h⟩
  cases h

/-- **The error tells how far content has been read**: it is one of the file list exactly if the
content has been read up to the times. -/
theorem isOfFileList_iff {content : Octets} {e : ParseError} (he : decode content = .error e) :
    e.isOfFileList = true ↔ ∃ head, Head.decode content = .ok head := by
  obtain hhead | ⟨head, hhead, hfiles⟩ := decode_eq_error_iff.mp he
  · rw [Head.failsOnly_decode content e hhead, hhead]
    exact ⟨fun h ↦ (nomatch h), fun ⟨_, h⟩ ↦ (nomatch h)⟩
  · exact ⟨fun _ ↦ ⟨head, hhead⟩, fun _ ↦ head.failsInFileList_files e hfiles⟩

end ManifestContent

namespace Manifest

/-! ## Reading at a time -/

section

variable {path : String} {now : Time} {signed : SignedContent} {ids : KeyIds}

/-- Behind the times, reading a manifest is comparing them with the time. -/
theorem ofSigned_of_head (hids : KeyIds.ofCertificate signed.certificate = .ok ids)
    {head : ManifestContent.Head}
    (hhead : ManifestContent.Head.decode signed.content = .ok head) :
    ofSigned path now signed =
      match head.window.check now with
      | .tooEarly => .error (.notYetValid head.window.thisUpdate)
      | .stale => .ok ⟨path, head.number, head.window, true, [], ids.ski, ids.aki, ids.aia⟩
      | .current =>
        (⟨path, head.number, head.window, false, ·, ids.ski, ids.aki, ids.aia⟩) <$> head.files := by
  rw [ofSigned, hids, hhead]
  rfl

/-- Content that cannot be read up to the times makes no manifest. -/
theorem ofSigned_of_head_error (hids : KeyIds.ofCertificate signed.certificate = .ok ids)
    {e : ParseError} (hhead : ManifestContent.Head.decode signed.content = .error e) :
    ofSigned path now signed = .error e := by
  rw [ofSigned, hids, hhead]
  rfl

/-- **Content that can be read makes a manifest by its window alone.** -/
theorem ofSigned_of_decode (hids : KeyIds.ofCertificate signed.certificate = .ok ids)
    {c : ManifestContent} (hc : ManifestContent.decode signed.content = .ok c) :
    ofSigned path now signed =
      match c.window.check now with
      | .tooEarly => .error (.notYetValid c.window.thisUpdate)
      | .stale => .ok ⟨path, c.number, c.window, true, [], ids.ski, ids.aki, ids.aia⟩
      | .current => .ok ⟨path, c.number, c.window, false, c.files, ids.ski, ids.aki, ids.aia⟩ := by
  simp only [ManifestContent.decode, bind_eq_ok_iff, pure_eq_ok_iff] at hc
  obtain ⟨head, hhead, files, hfiles, rfl⟩ := hc
  rw [ofSigned_of_head hids hhead, hfiles]
  rfl

/-- **Content that cannot be read makes no current manifest.**  If it is refused, then for what is
wrong with it or for the time. -/
theorem ofSigned_of_decode_error (hids : KeyIds.ofCertificate signed.certificate = .ok ids)
    {e : ParseError} (hc : ManifestContent.decode signed.content = .error e) :
    (∀ m, ofSigned path now signed = .ok m → m.stale = true) ∧
      ∀ e', ofSigned path now signed = .error e' → (∃ t, e' = .notYetValid t) ∨ e' = e := by
  obtain hhead | ⟨head, hhead, hfiles⟩ := ManifestContent.decode_eq_error_iff.mp hc
  · rw [ofSigned_of_head_error hids hhead]
    exact ⟨fun m h ↦ (nomatch h), fun e' h ↦ .inr (Except.error.inj h).symm⟩
  · rw [ofSigned_of_head hids hhead, hfiles]
    cases head.window.check now with
    | tooEarly => exact ⟨fun m h ↦ (nomatch h), fun e' h ↦ .inl ⟨_, (Except.error.inj h).symm⟩⟩
    | stale => exact ⟨fun m h ↦ by cases h; rfl, fun e' h ↦ (nomatch h)⟩
    | current => exact ⟨fun m h ↦ (nomatch h), fun e' h ↦ .inr (Except.error.inj h).symm⟩

/-- **A stale manifest has been read up to the times**, and the times are over. -/
theorem exists_head_of_stale {m : Manifest} (h : ofSigned path now signed = .ok m)
    (hm : m.stale = true) :
    ∃ head, ManifestContent.Head.decode signed.content = .ok head ∧ head.number = m.number ∧
      head.window = m.window ∧ head.window.nextUpdate < now.truncated := by
  obtain ⟨ids, head, -, hhead, ⟨hcheck, rfl⟩ | ⟨-, files, -, rfl⟩⟩ := ofSigned_eq_ok_iff.mp h
  · exact ⟨head, hhead, rfl, rfl, ValidityWindow.lt_of_check_eq_stale hcheck⟩
  · exact nomatch hm

end

/-! ## Opening the envelope -/

section

variable {m : Type → Type} [Monad m] [LawfulMonad m] {unwrap : Unwrapper m} {data : Octets}
  (path : String) (now : Time) (effect : m Unit) {signed : SignedContent}

/-- When the envelope has been opened, what is read no longer depends on who opened it. -/
theorem parse_of_unwrap (hunwrap : unwrap data .manifest = (do effect; return .ok signed)) :
    parse unwrap data path now = (do
      effect
      return ⟨ofSigned path now signed, resultLog path (ofSigned path now signed)⟩) := by
  -- The certificate is put beside the manifest and taken away again.
  have hresult : Except.map Prod.snd (do
      let opened ← Except.mapError ParseError.envelope (.ok signed)
      let manifest ← ofSigned path now opened
      return (opened.certificate, manifest)) = ofSigned path now signed := by
    change (ofSigned path now signed >>= fun r ↦ pure (signed.certificate, r)).map Prod.snd = _
    cases ofSigned path now signed <;> rfl
  rw [parse, parseWithCertificate, hunwrap]
  simp only [bind_assoc, pure_bind, Logged.map, hresult]

/-- **A stale manifest vouches for its number and its window.**  The content behind them is not
looked at, and if it cannot be read then that is where its error is. -/
theorem content_of_parse_stale
    (hunwrap : unwrap data .manifest = (do effect; return .ok signed)) :
    ∃ read, parse unwrap data path now = (do effect; return read) ∧
      ∀ manifest, read.value = .ok manifest → manifest.stale = true →
        manifest.window.nextUpdate < now.truncated ∧
          (∃ head, ManifestContent.Head.decode signed.content = .ok head ∧
            head.number = manifest.number ∧ head.window = manifest.window) ∧
          ((∃ files, ManifestContent.decode signed.content =
              .ok ⟨manifest.number, manifest.window, files⟩) ∨
            ∃ e, ManifestContent.decode signed.content = .error e ∧ e.isOfFileList = true) := by
  refine ⟨_, parse_of_unwrap path now effect hunwrap, fun manifest h hstale ↦ ?_⟩
  obtain ⟨head, hhead, hnumber, hwindow, hover⟩ := exists_head_of_stale h hstale
  refine ⟨hwindow ▸ hover, ⟨head, hhead, hnumber, hwindow⟩, ?_⟩
  rw [ManifestContent.decode_of_head hhead, hnumber, hwindow]
  cases hfiles : head.files with
  | ok files => exact .inl ⟨files, rfl⟩
  | error e => exact .inr ⟨e, rfl, head.failsInFileList_files e hfiles⟩

/-- Content with another algorithm and no file list makes a stale manifest and cannot be read. -/
theorem stale_without_file_list :
    let a : Time := ⟨1631880000, 0, by decide, by decide, by decide⟩
    let b : Time := ⟨1631966400, 0, by decide, by decide, by decide⟩
    let now : Time := ⟨1631970000, 0, by decide, by decide, by decide⟩
    let content := (Encoded.sequence
      [(ManifestNumber.ofNat 7).encode, .generalizedTime a, .generalizedTime b, .oid .manifest,
       .primitive .integer [1]]).octets
    let unwrap : Unwrapper Id := fun _ _ ↦ pure (.ok ⟨⟨some "AB", some "CD", none, b⟩, content⟩)
    let manifest : Manifest := ⟨"mft.mft", .ofNat 7, ⟨a, b⟩, true, [], "AB", "CD", none⟩
    (parse unwrap [] "mft.mft" now).run.value = .ok manifest ∧ manifest.stale = true ∧
      ManifestContent.decode content = .error (.semantic (.hashAlgorithm .manifest)) := by
  decide +kernel

/-- A stale manifest whose content has another algorithm and no file list. -/
theorem content_of_parse_stale_without_file_list :
    let a : Time := ⟨1631880000, 0, by decide, by decide, by decide⟩
    let b : Time := ⟨1631966400, 0, by decide, by decide, by decide⟩
    let now : Time := ⟨1631970000, 0, by decide, by decide, by decide⟩
    let content := (Encoded.sequence
      [(ManifestNumber.ofNat 7).encode, .generalizedTime a, .generalizedTime b, .oid .manifest,
       .primitive .integer [1]]).octets
    let signed : SignedContent := ⟨⟨some "AB", some "CD", none, b⟩, content⟩
    let effect : Id Unit := pure ()
    let unwrap : Unwrapper Id := fun _ _ ↦ (do effect; return .ok signed)
    let manifest : Manifest := ⟨"mft.mft", .ofNat 7, ⟨a, b⟩, true, [], "AB", "CD", none⟩
    unwrap [] .manifest = (do effect; return .ok signed) ∧
      (parse unwrap [] "mft.mft" now).run.value = .ok manifest ∧ manifest.stale = true ∧
        ∃ head, ManifestContent.Head.decode content = .ok head ∧ head.number = .ofNat 7 ∧
          head.window = ⟨a, b⟩ := by
  intro a b now content signed effect unwrap manifest
  have hunwrap : unwrap [] .manifest = (do effect; return .ok signed) := rfl
  have hvalue : (parse unwrap [] "mft.mft" now).run.value = .ok manifest := by
    decide +kernel +zetaReduce
  obtain ⟨read, hread, hstale⟩ := content_of_parse_stale "mft.mft" now effect hunwrap
  have hread' : read.value = .ok manifest := by rwa [hread] at hvalue
  exact ⟨hunwrap, hvalue, rfl, (hstale manifest hread' rfl).2.1⟩

/-- **Reading content at a time agrees with reading it as such**, if the certificate names both
keys: in the three places a time can be at when the content can be read, and up to which errors come
out when it cannot. -/
theorem parse_agrees_with_decode {content : Octets} {ski aki : String} {aia : Option String}
    {notAfter : Time} (hski : ski ≠ "") (haki : aki ≠ "")
    (hunwrap : unwrap data .manifest =
      (do effect; return .ok ⟨⟨some ski, some aki, aia, notAfter⟩, content⟩)) :
    ∃ read, parse unwrap data path now = (do effect; return read) ∧
      (∀ c, ManifestContent.decode content = .ok c →
        (now.truncated < c.window.thisUpdate →
          read.value = .error (.notYetValid c.window.thisUpdate)) ∧
        (c.window.nextUpdate < now.truncated →
          read.value = .ok ⟨path, c.number, c.window, true, [], ski, aki,
            if aia = some "" then none else aia⟩) ∧
        (c.window.thisUpdate ≤ now.truncated → now.truncated ≤ c.window.nextUpdate →
          read.value = .ok ⟨path, c.number, c.window, false, c.files, ski, aki,
            if aia = some "" then none else aia⟩)) ∧
      (∀ e, ManifestContent.decode content = .error e →
        (∀ manifest, read.value = .ok manifest → manifest.stale = true) ∧
          ∀ e', read.value = .error e' → (∃ t, e' = .notYetValid t) ∨ e' = e) := by
  let signed : SignedContent := ⟨⟨some ski, some aki, aia, notAfter⟩, content⟩
  have hids : KeyIds.ofCertificate signed.certificate =
      .ok ⟨ski, aki, if aia = some "" then none else aia⟩ :=
    KeyIds.ofCertificate_eq_ok_iff.mpr ⟨⟨rfl, hski⟩, ⟨rfl, haki⟩, KeyIds.present_eq aia⟩
  refine ⟨_, parse_of_unwrap path now effect hunwrap, fun c hc ↦ ?_, fun e he ↦ ?_⟩
  · obtain ⟨hreadable, -⟩ := ManifestContent.decode_eq_ok_iff.mp hc
    have hread := @ofSigned_of_decode path now signed _ hids c hc
    refine ⟨fun hearly ↦ ?_, fun hover ↦ ?_, fun hthis hnext ↦ ?_⟩
    · rw [hread, ValidityWindow.check_eq_tooEarly hearly]
    · rw [hread, ValidityWindow.check_eq_stale hreadable.window.le hover]
    · rw [hread, ValidityWindow.check_eq_current hthis hnext]
  · exact @ofSigned_of_decode_error path now signed _ hids e he

/-- A manifest with one file, an hour after it has run out. -/
theorem parse_agrees_with_decode_one_file :
    let a : Time := ⟨1631880000, 0, by decide, by decide, by decide⟩
    let b : Time := ⟨1631966400, 0, by decide, by decide, by decide⟩
    let now : Time := ⟨1631970000, 0, by decide, by decide, by decide⟩
    let c : ManifestContent := ⟨.ofNat 200, ⟨a, b⟩, [⟨"a.roa", List.replicate 32 0xAB, rfl⟩]⟩
    let content := c.draft.octets
    let signed : SignedContent := ⟨⟨some "AB", some "CD", some "", b⟩, content⟩
    let effect : Id Unit := pure ()
    let unwrap : Unwrapper Id := fun _ _ ↦ (do effect; return .ok signed)
    "AB" ≠ "" ∧ "CD" ≠ "" ∧ unwrap [] .manifest = (do effect; return .ok signed) ∧
      ManifestContent.decode content = .ok c ∧ c.window.nextUpdate < now.truncated ∧
      (parse unwrap [] "a.mft" now).run.value =
        .ok ⟨"a.mft", .ofNat 200, ⟨a, b⟩, true, [], "AB", "CD", none⟩ := by
  intro a b now c content signed effect unwrap
  have hski : "AB" ≠ "" := by decide
  have haki : "CD" ≠ "" := by decide
  have hunwrap : unwrap [] .manifest = (do effect; return .ok signed) := rfl
  have hdecode : ManifestContent.decode content = .ok c := by decide +kernel +zetaReduce
  have hover : c.window.nextUpdate < now.truncated := by decide +kernel +zetaReduce
  obtain ⟨read, hread, hok, -⟩ := parse_agrees_with_decode "a.mft" now effect hski haki hunwrap
  refine ⟨hski, haki, hunwrap, hdecode, hover, ?_⟩
  rw [hread]
  exact (hok c hdecode).2.1 hover

end

end Manifest

end Rpki
