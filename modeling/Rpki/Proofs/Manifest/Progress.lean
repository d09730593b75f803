import Rpki.Proofs.Manifest.Verdict

/-!
# Verdicts only move forward

One object, read at two times.  The envelope, the key identifiers and the content up to the times
are the same in both readings, and what fails there fails in both with the same error.  Time comes
in with the verdict on the window and with nothing else, so a reading is a function of the verdict
(`Manifest.ofVerdict`), and a verdict never goes back (`ValidityWindow.stage_check_le`).

`Manifest.Follows` is what this comes to for two results, the second of which is the later one:
what is stale stays so, what is not valid yet was not before, and all other results are the same.
-/

set_option autoImplicit false

namespace Rpki

/-! ## The order of verdicts -/

namespace Verdict

theorem eq_stale_of_stage_le {v : Verdict} (h : stale.stage ≤ v.stage) : v = stale := by
  cases v with
  | tooEarly => exact absurd h (by decide)
  | current => exact absurd h (by decide)
  | stale => rfl

theorem eq_tooEarly_of_stage_le {v : Verdict} (h : v.stage ≤ tooEarly.stage) : v = tooEarly := by
  cases v with
  | tooEarly => rfl
  | current => exact absurd h (by decide)
  | stale => exact absurd h (by decide)

end Verdict

namespace Manifest

/-! ## Results of one object -/

/-- What comes of content that has been read up to the times, with each verdict on its window. -/
def ofVerdict (path : String) (ids : KeyIds) (head : ManifestContent.Head) :
    Verdict → Except ParseError Manifest
  | .tooEarly => .error (.notYetValid head.window.thisUpdate)
  | .stale => .ok ⟨path, head.number, head.window, true, [], ids.ski, ids.aki, ids.aia⟩
  | .current =>
    (⟨path, head.number, head.window, false, ·, ids.ski, ids.aki, ids.aia⟩) <$> head.files

section

variable {path : String} {ids : KeyIds} {head : ManifestContent.Head} {v : Verdict}

/-- Only a window that is over makes a stale manifest. -/
theorem eq_stale_of_ofVerdict {m : Manifest} (h : ofVerdict path ids head v = .ok m)
    (hm : m.stale = true) : v = .stale := by
  cases v with
  | tooEarly => exact nomatch h
  | stale => rfl
  | current =>
    obtain ⟨files, -, rfl⟩ := map_eq_ok_iff.mp h
    exact nomatch hm

/-- Only a window that has not begun makes this error: no file list has it. -/
theorem eq_tooEarly_of_ofVerdict {t : Time}
    (h : ofVerdict path ids head v = .error (.notYetValid t)) : v = .tooEarly := by
  cases v with
  | tooEarly => rfl
  | stale => exact nomatch h
  | current =>
    rw [ofVerdict] at h
    cases hfiles : head.files with
    | ok files =>
      rw [hfiles] at h
      exact nomatch h
    | error e =>
      rw [hfiles] at h
      obtain rfl : e = .notYetValid t := Except.error.inj h
      exact nomatch head.failsInFileList_files _ hfiles

end

/-- `after` is a result that reading can have at a later time, if `before` is the one at an earlier
time. -/
structure Follows (before after : Except ParseError Manifest) : Prop where
  /-- What is stale stays the same. -/
  of_stale : ∀ m, before = .ok m → m.stale = true → after = .ok m
  /-- What is not valid yet was not valid before, with the same start. -/
  of_notYetValid : ∀ t, after = .error (.notYetValid t) → before = .error (.notYetValid t)
  /-- Results that are neither are the same. -/
  eq_of_current : (∀ t, before ≠ .error (.notYetValid t)) → (∀ t, after ≠ .error (.notYetValid t)) →
    (∀ m, before = .ok m → m.stale = false) → (∀ m, after = .ok m → m.stale = false) →
    before = after

theorem Follows.refl (r : Except ParseError Manifest) : Follows r r :=
  ⟨fun _ h _ ↦ h, fun _ h ↦ h, fun _ _ _ _ ↦ rfl⟩

/-- **Results follow each other as verdicts do.** -/
theorem follows_ofVerdict (path : String) (ids : KeyIds) (head : ManifestContent.Head)
    {v v' : Verdict} (h : v.stage ≤ v'.stage) :
    Follows (ofVerdict path ids head v) (ofVerdict path ids head v') := by
  refine ⟨fun m hm hstale ↦ ?_, fun t ht ↦ ?_, fun hbefore _ _ hafter ↦ ?_⟩
  · obtain rfl := eq_stale_of_ofVerdict hm hstale
    rw [Verdict.eq_stale_of_stage_le h, hm]
  · obtain rfl := eq_tooEarly_of_ofVerdict ht
    rw [Verdict.eq_tooEarly_of_stage_le h, ht]
  · -- The earlier verdict is not the first one and the later not the last, so both are current.
    cases v with
    | tooEarly => exact absurd rfl (hbefore head.window.thisUpdate)
    | stale =>
      rw [Verdict.eq_stale_of_stage_le h] at hafter
      exact nomatch hafter _ rfl
    | current =>
      cases v' with
      | tooEarly => exact absurd h (by decide)
      | stale => exact nomatch hafter _ rfl
      | current => rfl

/-! ## Reading at two times -/

theorem ofSigned_eq_ofVerdict {path : String} {now : Time} {signed : SignedContent} {ids : KeyIds}
    (hids : KeyIds.ofCertificate signed.certificate = .ok ids) {head : ManifestContent.Head}
    (hhead : ManifestContent.Head.decode signed.content = .ok head) :
    ofSigned path now signed = ofVerdict path ids head (head.window.check now) := by
  rw [ofSigned_of_head hids hhead]
  cases head.window.check now <;> rfl

/-- Whatever fails before the verdict fails at all times. -/
theorem follows_ofSigned (path : String) (signed : SignedContent) {now later : Time}
    (h : now ≤ later) : Follows (ofSigned path now signed) (ofSigned path later signed) := by
  cases hids : KeyIds.ofCertificate signed.certificate with
  | error e =>
    have herror (t : Time) : ofSigned path t signed = .error e := by
      rw [ofSigned, hids]
      rfl
    rw [herror now, herror later]
    exact Follows.refl _
  | ok ids =>
    cases hhead : ManifestContent.Head.decode signed.content with
    | error e =>
      rw [ofSigned_of_head_error hids hhead, ofSigned_of_head_error hids hhead]
      exact Follows.refl _
    | ok head =>
      rw [ofSigned_eq_ofVerdict hids hhead, ofSigned_eq_ofVerdict hids hhead]
      exact follows_ofVerdict path ids head (ValidityWindow.stage_check_le h)

/-- What is read when opening the envelope is a function. -/
theorem value_parse (unwrap : Unwrapper Id) (data : Octets) (path : String) (now : Time) :
    (parse unwrap data path now).run.value = (do
      let signed ← (unwrap data .manifest).run.mapError .envelope
      ofSigned path now signed) := by
  have hparse : (parse unwrap data path now).run.value = Except.map Prod.snd (do
      let signed ← (unwrap data .manifest).run.mapError .envelope
      let manifest ← ofSigned path now signed
      return (signed.certificate, manifest)) := rfl
  rw [hparse]
  cases (unwrap data .manifest).run with
  | error reason => rfl
  | ok signed =>
    change (ofSigned path now signed >>= fun r ↦ pure (signed.certificate, r)).map Prod.snd = _
    cases hsigned : ofSigned path now signed with
    | error e => exact hsigned.symm
    | ok manifest => exact hsigned.symm

/-- **Verdicts only move forward.**  Whoever reads the same object again at a later time gets the
same stale manifest if it was stale before; if it is not valid yet then it was not before either;
and two results that are neither of these are the same, be it a manifest or an error. -/
theorem parse_of_le (unwrap : Unwrapper Id) (data : Octets) (path : String) {now later : Time}
    (h : now ≤ later) :
    let before := (parse unwrap data path now).run.value
    let after := (parse unwrap data path later).run.value
    (∀ m, before = .ok m → m.stale = true → after = .ok m) ∧
      (∀ t, after = .error (.notYetValid t) → before = .error (.notYetValid t)) ∧
      ((∀ t, before ≠ .error (.notYetValid t)) → (∀ t, after ≠ .error (.notYetValid t)) →
        (∀ m, before = .ok m → m.stale = false) → (∀ m, after = .ok m → m.stale = false) →
        before = after) := by
  have hfollows : Follows (parse unwrap data path now).run.value
      (parse unwrap data path later).run.value := by
    rw [value_parse, value_parse]
    cases (unwrap data .manifest).run with
    | error reason => exact Follows.refl (.error (.envelope reason))
    | ok signed => exact follows_ofSigned path signed h
  exact ⟨hfollows.of_stale, hfollows.of_notYetValid, hfollows.eq_of_current⟩

/-- A manifest with one file, half a second after its last second and in the year 2030. -/
theorem parse_of_le_one_file :
    let a : Time := ⟨1631880000, 0, by decide, by decide, by decide⟩
    let b : Time := ⟨1631966400, 0, by decide, by decide, by decide⟩
    let now : Time := ⟨1631966401, 500000000, by decide, by decide, by decide⟩
    let later : Time := ⟨1893456000, 0, by decide, by decide, by decide⟩
    let c : ManifestContent := ⟨.ofNat 200, ⟨a, b⟩, [⟨"a.roa", List.replicate 32 0xAB, rfl⟩]⟩
    let unwrap : Unwrapper Id := fun data _ ↦ pure (.ok ⟨⟨some "AB", some "CD", none, b⟩, data⟩)
    let manifest : Manifest := ⟨"a.mft", .ofNat 200, ⟨a, b⟩, true, [], "AB", "CD", none⟩
    now ≤ later ∧ (parse unwrap c.draft.octets "a.mft" now).run.value = .ok manifest ∧
      manifest.stale = true ∧
      (parse unwrap c.draft.octets "a.mft" later).run.value = .ok manifest := by
  intro a b now later c unwrap manifest
  have hle : now ≤ later := by decide
  have hnow : (parse unwrap c.draft.octets "a.mft" now).run.value = .ok manifest := by
    decide +kernel +zetaReduce
  obtain ⟨hstale, -⟩ := parse_of_le unwrap c.draft.octets "a.mft" hle
  exact ⟨hle, hnow, rfl, hstale manifest hnow rfl⟩

end Manifest

end Rpki
