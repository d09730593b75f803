import Mathlib.Data.List.Forall2
import Rpki.Log
import Rpki.Proofs.Der.Fault
import Rpki.SignedObject

/-!
# Parts of signed objects

What objects of all kinds have in common: a list whose entries are sequences, the fields that are
taken from the certificate, and the envelope around it all.

`readEach_eq_ok_iff` says what has been read when a list has: every element of it is the SEQUENCE of
some elements of which an entry has been made, in order and with none left out.  When it has not,
`readEach_eq_error_iff` says where the reading ended, and `failsOnly_readEach` which errors there
can be.
-/

set_option autoImplicit false

namespace Rpki

open Der

/-! ## Lists of sequences -/

/-- **A list is read exactly if each of its elements is a sequence that is read.** -/
theorem readEach_eq_ok_iff {α : Type} {f : Field} {item : Sequence → Except ParseError α}
    {position : Nat} {es : Sequence} {as : List α} :
    readEach f item position es = .ok as ↔
      List.Forall₂ (fun e a ↦ ∃ s, (∀ x ∈ s, x.IsRegular) ∧ e = .ofSequence s ∧ item s = .ok a)
        es as := by
  induction es generalizing position as with
  | nil =>
    rw [readEach, List.forall₂_nil_left_iff]
    exact ⟨fun h ↦ (Except.ok.inj h).symm, fun h ↦ congrArg Except.ok h.symm⟩
  | cons e es ih =>
    simp only [readEach, bind_eq_ok_iff, inField_eq_ok_iff, Element.sequence_eq_ok_iff, ih,
      pure_eq_ok_iff]
    constructor
    · rintro ⟨s, ⟨hs, he⟩, a, ha, as', has, rfl⟩
      exact .cons ⟨s, hs, he, ha⟩ has
    · rintro (_ | ⟨⟨s, hs, he, ha⟩, has⟩)
      exact ⟨s, ⟨hs, he⟩, _, ha, _, has, rfl⟩

/-- **A list is read exactly from the sequences of its entries**, one after the other, if an entry
is read exactly from its elements.  That the elements inside the entries can be read is no further
condition: the list has been read, so they are short enough. -/
theorem readEach_eq_ok_iff_exists {α τ : Type} {f : Field} {item : Sequence → Except ParseError α}
    {elements : τ → Sequence} {value : τ → α}
    (hshort : ∀ t, ∀ x ∈ elements t, x.RegularIfShort)
    (hitem : ∀ {s : Sequence} {a : α}, item s = .ok a ↔ ∃ t, s = elements t ∧ value t = a)
    {position : Nat} {es : Sequence} (hes : ∀ e ∈ es, e.IsRegular) {as : List α} :
    readEach f item position es = .ok as ↔
      ∃ ts : List τ, es = ts.map (fun t ↦ .ofSequence (elements t)) ∧ ts.map value = as := by
  induction es generalizing position as with
  | nil =>
    rw [readEach, Except.ok.injEq]
    constructor
    · rintro rfl
      exact ⟨[], rfl, rfl⟩
    · rintro ⟨ts, hts, rfl⟩
      rw [List.map_eq_nil_iff.mp hts.symm, List.map_nil]
  | cons e es ih =>
    rw [List.forall_mem_cons] at hes
    simp only [readEach, bind_eq_ok_iff, inField_eq_ok_iff, Element.sequence_eq_ok_iff,
      ih hes.2, hitem, pure_eq_ok_iff]
    constructor
    · rintro ⟨_, ⟨-, rfl⟩, _, ⟨t, rfl, rfl⟩, _, ⟨ts, rfl, rfl⟩, rfl⟩
      exact ⟨t :: ts, rfl, rfl⟩
    · rintro ⟨ts, hts, rfl⟩
      obtain ⟨t, ts, rfl, rfl, rfl⟩ := List.map_eq_cons_iff.mp hts.symm
      have hregular := Element.isRegular_of_mem (hshort t) hes.1.lt
      exact ⟨_, ⟨hregular, rfl⟩, _, ⟨t, rfl, rfl⟩, _, ⟨ts, rfl, rfl⟩, rfl⟩

/-- What `item` makes of the element at a position of a list, which has to be a sequence. -/
def readAt {α : Type} (f : Field) (item : Sequence → Except ParseError α) (position : Nat)
    (e : Element) : Except ParseError α := do
  let s ← inField f (e.sequence position)
  item s

section

variable {α : Type} {f : Field} {item : Sequence → Except ParseError α} {position : Nat}
  {e : Element}

theorem readAt_eq_ok_iff {a : α} :
    readAt f item position e = .ok a ↔
      ∃ s, (∀ x ∈ s, x.IsRegular) ∧ e = .ofSequence s ∧ item s = .ok a := by
  simp only [readAt, bind_eq_ok_iff, inField_eq_ok_iff, Element.sequence_eq_ok_iff, and_assoc]

theorem readEach_cons (es : Sequence) :
    readEach f item position (e :: es) = (do
      let a ← readAt f item position e
      let as ← readEach f item (position + 1) es
      return a :: as) := by
  rw [readEach, readAt, bind_assoc]

/-- A list whose first element is read is read like the others, one position further on. -/
theorem readEach_cons_eq_error_iff {es : Sequence} {error : ParseError} :
    readEach f item position (e :: es) = .error error ↔
      readAt f item position e = .error error ∨
        (∃ a, readAt f item position e = .ok a) ∧
          readEach f item (position + 1) es = .error error := by
  have hreturn (a : α) : (do
      let as ← readEach f item (position + 1) es
      return a :: as) = .error error ↔ readEach f item (position + 1) es = .error error := by
    rw [bind_eq_error_iff]
    refine or_iff_left ?_
    rintro ⟨as, -, h⟩
    exact nomatch h
  simp only [readEach_cons, bind_eq_error_iff (r := readAt f item position e), hreturn,
    exists_and_right]

/-- **A list that is not read has a first element that is not**, and it has the error of that
element.  What stands behind it has no part in that. -/
theorem readEach_eq_error_iff {es : Sequence} {error : ParseError} :
    readEach f item position es = .error error ↔
      ∃ before e after, es = before ++ e :: after ∧
        (∀ x ∈ before, ∃ a s, (∀ y ∈ s, y.IsRegular) ∧ x = .ofSequence s ∧ item s = .ok a) ∧
        readAt f item (position + before.length) e = .error error := by
  induction es generalizing position with
  | nil =>
    rw [readEach]
    refine ⟨fun h ↦ (nomatch h), ?_⟩
    rintro ⟨before, e, after, h, -⟩
    exact absurd h.symm (by simp)
  | cons x es ih =>
    simp only [readEach_cons_eq_error_iff, ih, readAt_eq_ok_iff]
    constructor
    · rintro (h | ⟨hx, before, e, after, rfl, hbefore, h⟩)
      · exact ⟨[], x, es, rfl, by simp, h⟩
      · refine ⟨x :: before, e, after, rfl, List.forall_mem_cons.mpr ⟨hx, hbefore⟩, ?_⟩
        rwa [List.length_cons, Nat.add_comm before.length, ← Nat.add_assoc]
    · rintro ⟨before, e, after, hes, hbefore, h⟩
      cases before with
      | nil =>
        obtain ⟨rfl, -⟩ := List.cons.inj hes
        exact .inl h
      | cons y before =>
        obtain ⟨rfl, rfl⟩ := List.cons.inj hes
        rw [List.forall_mem_cons] at hbefore
        rw [List.length_cons, Nat.add_comm before.length, ← Nat.add_assoc] at h
        exact .inr ⟨hbefore.1, before, e, after, rfl, hbefore.2, h⟩

/-- The errors of a list are those of its entries, and those for elements that are no sequences. -/
theorem failsOnly_readEach_of {P : ParseError → Prop}
    (hfield : ∀ position (fault : Fault), fault.IsOf position .sequence →
      P (.structural ⟨some f, fault⟩))
    (hitem : ∀ s, FailsOnly P (item s)) (position : Nat) (es : Sequence) :
    FailsOnly P (readEach f item position es) := by
  intro error h
  obtain ⟨before, e, after, -, -, h⟩ := readEach_eq_error_iff.mp h
  have hat : FailsOnly P (readAt f item (position + before.length) e) :=
    failsOnly_bind (failsOnly_inField_of (Q := (·.IsOf _ .sequence)) (e.faults_contentAs _ _ _)
      (hfield _)) hitem
  exact hat error h

theorem failsOnly_readEach {P : ParseError → Prop}
    (hfield : ∀ fault, P (.structural ⟨some f, fault⟩)) (hitem : ∀ s, FailsOnly P (item s))
    (position : Nat) (es : Sequence) : FailsOnly P (readEach f item position es) :=
  failsOnly_readEach_of (fun _ fault _ ↦ hfield fault) hitem position es

end

/-! ## Fields of the certificate -/

/-- The texts of a certificate have lengths that fit into 64 bits. -/
def Certificate.FitsTransfer (c : Certificate) : Prop :=
  ∀ text ∈ [c.ski, c.aki, c.aia], (text.getD "").utf8ByteSize < 2 ^ 64

instance (c : Certificate) : Decidable c.FitsTransfer :=
  inferInstanceAs (Decidable (∀ text ∈ [c.ski, c.aki, c.aia], _))

namespace KeyIds

theorem present_eq_some_iff {o : Option String} {s : String} :
    present o = some s ↔ o = some s ∧ s ≠ "" := by
  cases o with
  | none => exact ⟨fun h ↦ (nomatch h), fun h ↦ (nomatch h.1)⟩
  | some s' =>
    rw [present]
    split
    · next h => exact ⟨fun hs ↦ (nomatch hs), fun ⟨hs, hne⟩ ↦ absurd (Option.some.inj hs ▸ h) hne⟩
    · next h => exact ⟨fun hs ↦ ⟨hs, Option.some.inj hs ▸ h⟩, fun hs ↦ hs.1⟩

theorem present_ne (o : Option String) : present o ≠ some "" :=
  fun h ↦ (present_eq_some_iff.mp h).2 rfl

theorem getD_present (o : Option String) : (present o).getD "" = o.getD "" := by
  cases o with
  | none => rfl
  | some s =>
    rw [present]
    split
    · next h => exact h.symm
    · rfl

theorem present_eq (o : Option String) : present o = if o = some "" then none else o := by
  cases o with
  | none => rfl
  | some s => simp only [present, Option.some.injEq]

/-- Both identifiers come from the certificate and are not empty. -/
theorem ofCertificate_eq_ok_iff {c : Certificate} {ids : KeyIds} :
    ofCertificate c = .ok ids ↔
      (c.ski = some ids.ski ∧ ids.ski ≠ "") ∧ (c.aki = some ids.aki ∧ ids.aki ≠ "") ∧
        present c.aia = ids.aia := by
  obtain ⟨ski, aki, aia⟩ := ids
  rw [← present_eq_some_iff, ← present_eq_some_iff, ofCertificate]
  refine ⟨fun h ↦ ?_, fun h ↦ ?_⟩
  · split at h
    · next hski haki =>
      obtain ⟨rfl, rfl, rfl⟩ := KeyIds.mk.inj (Except.ok.inj h)
      exact ⟨hski, haki, rfl⟩
    · exact nomatch h
    · exact nomatch h
  · obtain ⟨hski, haki, rfl⟩ := h
    simp only [hski, haki]

/-- Nothing that is kept of a certificate is an empty text. -/
theorem ne_empty {c : Certificate} {ids : KeyIds} (h : ofCertificate c = .ok ids) :
    ids.ski ≠ "" ∧ ids.aki ≠ "" ∧ ids.aia ≠ some "" := by
  obtain ⟨⟨-, hski⟩, ⟨-, haki⟩, haia⟩ := ofCertificate_eq_ok_iff.mp h
  exact ⟨hski, haki, haia ▸ present_ne c.aia⟩

/-- What is kept of a certificate is not longer than what it says. -/
theorem lengths_lt {c : Certificate} {ids : KeyIds} (h : ofCertificate c = .ok ids)
    (hc : c.FitsTransfer) :
    ids.ski.utf8ByteSize < 2 ^ 64 ∧ ids.aki.utf8ByteSize < 2 ^ 64 ∧
      (ids.aia.getD "").utf8ByteSize < 2 ^ 64 := by
  obtain ⟨⟨hski, -⟩, ⟨haki, -⟩, haia⟩ := ofCertificate_eq_ok_iff.mp h
  have hskilt := hc c.ski (by simp)
  have hakilt := hc c.aki (by simp)
  have haialt := hc c.aia (by simp)
  rw [hski] at hskilt
  rw [haki] at hakilt
  rw [← getD_present, haia] at haialt
  exact ⟨hskilt, hakilt, haialt⟩

end KeyIds

/-! ## Envelopes -/

/-- What is returned with a certificate has been read from an envelope that was opened, whatever is
logged about it. -/
theorem SignedContent.exists_of_canReturn {m : Type → Type} [Monad m] [LawfulMonad m]
    [MonadAttach m] [LawfulMonadAttach m] {α : Type} {opening : m (Except String SignedContent)}
    {item : SignedContent → Except ParseError α} {log : Except String SignedContent → List LogEntry}
    {read : Logged (Except ParseError (Certificate × α))} {certificate : Certificate} {a : α}
    (hread : MonadAttach.CanReturn (do
      let opened ← opening
      let result := do
        let signed ← opened.mapError .envelope
        let a ← item signed
        return (signed.certificate, a)
      return ⟨result, log opened⟩ : m _) read)
    (hvalue : read.value = .ok (certificate, a)) :
    ∃ signed, MonadAttach.CanReturn opening (.ok signed) ∧
      signed.certificate = certificate ∧ item signed = .ok a := by
  obtain ⟨opened, hopened, hread⟩ := LawfulMonadAttach.canReturn_bind_imp' hread
  obtain rfl := LawfulMonadAttach.eq_of_canReturn_pure hread
  simp only [bind_eq_ok_iff, mapError_eq_ok_iff, pure_eq_ok_iff, Prod.mk.injEq] at hvalue
  obtain ⟨signed, rfl, _, hsigned, rfl, rfl⟩ := hvalue
  exact ⟨signed, hopened, rfl, hsigned⟩

/-- What is returned without a certificate has been read with one. -/
theorem Logged.exists_of_canReturn_map_snd {m : Type → Type} [Monad m] [LawfulMonad m]
    [MonadAttach m] [LawfulMonadAttach m] {α : Type}
    {reading : m (Logged (Except ParseError (Certificate × α)))}
    {read : Logged (Except ParseError α)} {a : α}
    (hread : MonadAttach.CanReturn (do
      let read ← reading
      return read.map (Except.map Prod.snd) : m _) read)
    (hvalue : read.value = .ok a) :
    ∃ read' certificate, MonadAttach.CanReturn reading read' ∧
      read'.value = .ok (certificate, a) := by
  obtain ⟨read', hread', hread⟩ := LawfulMonadAttach.canReturn_bind_imp' hread
  obtain rfl := LawfulMonadAttach.eq_of_canReturn_pure hread
  rw [Logged.map] at hvalue
  cases hboth : read'.value with
  | error e =>
    rw [hboth] at hvalue
    exact nomatch hvalue
  | ok both =>
    rw [hboth] at hvalue
    obtain rfl : both.2 = a := Except.ok.inj hvalue
    exact ⟨read', both.1, hread', hboth⟩

end Rpki
