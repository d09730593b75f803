import Rpki.Proofs.Manifest.Entry

/-!
# A file list is all or nothing

The entries of a file list are read one by one, and none of them knows of the others.  So a list is
read exactly if each of its elements is an entry on its own, which `Element.IsEntry` says without
the reader, and one that is not read has the error of the first element that is none
(`FileEntry.readList_all_or_first_fault`).

`FileEntry.ofElement` is the reader for a single element.  All that it makes of the position is to
name it, when there are no parts of an entry to be read.  What is wrong with the parts is the same
at every position, and is a fault in the entry.
-/

set_option autoImplicit false

namespace Rpki

namespace Der.Element

def IsSequence (e : Element) : Prop := e.tag = .sequence ∧ e.constructed = true

/-- The element is the SEQUENCE of the name and the hash of an entry, and the name is one that an
entry of a file list may have. -/
structure IsEntry (e : Element) (entry : FileEntry) : Prop where
  isListable : FileName.IsListable entry.file
  isRegular : ∀ x ∈ entry.elements, x.IsRegular
  eq_element : e = entry.element

end Der.Element

namespace FileEntry

open Der

/-! ## Single elements -/

/-- An element is an entry exactly if it holds the elements of one. -/
theorem isEntry_iff {e : Element} {entry : FileEntry} :
    e.IsEntry entry ↔
      ∃ s, (∀ x ∈ s, x.IsRegular) ∧ e = .ofSequence s ∧ ofElements s = .ok entry := by
  constructor
  · rintro ⟨hlistable, hregular, rfl⟩
    exact ⟨_, hregular, rfl, ofElements_eq_ok_iff.mpr ⟨hlistable, rfl⟩⟩
  · rintro ⟨item, hitem, rfl, hread⟩
    obtain ⟨hlistable, rfl⟩ := ofElements_eq_ok_iff.mp hread
    exact ⟨hlistable, hitem, rfl⟩

/-- Reads the element at a position of a file list as an entry. -/
def ofElement (position : Nat) (e : Element) : Except ParseError FileEntry :=
  readAt .fileList ofElements position e

/-- Whether an element is an entry, and which one, does not depend on where it stands. -/
theorem ofElement_eq_ok_iff {position : Nat} {e : Element} {entry : FileEntry} :
    ofElement position e = .ok entry ↔ e.IsEntry entry := by
  rw [ofElement, readAt_eq_ok_iff, isEntry_iff]

theorem ofElement_of_not_isSequence {e : Element} (h : ¬ e.IsSequence) (position : Nat) :
    ofElement position e = .error (.structural
      ⟨some .fileList, .unexpectedElement position .sequence e.tag e.constructed⟩) := by
  have hexpect : e.expect position .sequence =
      fail (.unexpectedElement position .sequence e.tag e.constructed) := if_neg h
  rw [ofElement, readAt, Element.sequence, Element.contentAs, hexpect]
  rfl

theorem ofElement_of_not_elements {e : Element} (h : e.IsSequence)
    (hcontent : Element.readAll? e.content = none) (position : Nat) :
    ofElement position e =
      .error (.structural ⟨some .fileList, .badEncoding position .sequence⟩) := by
  have hexpect : e.expect position .sequence = .ok e := if_pos h
  have hsequence : e.sequence position = fail (.badEncoding position .sequence) := by
    rw [Element.sequence, Element.contentAs, hexpect]
    simp only [bind, Except.bind, hcontent]
  rw [ofElement, readAt, hsequence]
  rfl

theorem ofElement_of_elements {e : Element} {item : Sequence} (h : e.IsSequence)
    (hcontent : Element.readAll? e.content = some item) (position : Nat) :
    ofElement position e = ofElements item := by
  obtain ⟨tag, constructed, content⟩ := e
  obtain ⟨rfl, rfl⟩ := h
  have hsequence : Element.sequence ⟨.sequence, true, content⟩ position = .ok item :=
    Element.contentAs_eq_ok_iff.mpr ⟨content, rfl, hcontent⟩
  rw [ofElement, readAt, hsequence]
  rfl

/-- The structural faults of an entry are faults in the entry, and in something that is there.  The
other errors are those of its name and of its hash. -/
theorem failsOnly_ofElements {P : ParseError → Prop}
    (hfield : ∀ fault : Fault, fault.IsInside → P (.structural ⟨some .fileAndHash, fault⟩))
    (hascii : P (.semantic .nameNotAscii))
    (hname : ∀ name, FailsOnly P (asValue (FileName.check name)))
    (hhash : ∀ octets, FailsOnly P (asValue (Digest.ofOctets octets))) (item : Sequence) :
    FailsOnly P (ofElements item) := by
  rw [ofElements]
  refine failsOnly_bind_of_ok (item.failsOnly_inField_checkCount hfield _) fun count hcount ↦ ?_
  have htwo := Sequence.length_of_inField_checkCount hcount
  refine failsOnly_bind (Sequence.failsOnly_inField_contentAt hfield (by omega) _ _) fun name ↦ ?_
  cases name with
  | none => exact failsOnly_asValue (failsOnly_error hascii)
  | some file =>
    refine failsOnly_bind (hname file) fun _ ↦ ?_
    refine failsOnly_bind (Sequence.failsOnly_inField_contentAt hfield (by omega) _ _) fun hash ↦ ?_
    split
    · exact failsOnly_bind (hhash hash.octets) fun digest ↦ failsOnly_ok _
    · exact failsOnly_error (hfield _ (Fault.isInside_badValue _ _ _))

theorem field_of_ofElements_eq_error {item : Sequence} {error : StructuralError}
    (h : ofElements item = .error (.structural error)) : error.field = some .fileAndHash := by
  have hvalue {α : Type} (r : Except SemanticError α) :
      FailsOnly (fun e ↦ ∀ error, e = .structural error → error.field = some .fileAndHash)
        (asValue r) :=
    failsOnly_asValue fun _ _ _ h ↦ nomatch h
  exact failsOnly_ofElements (fun _ _ _ h ↦ ParseError.structural.inj h ▸ rfl)
    (fun _ h ↦ nomatch h) (fun _ ↦ hvalue _) (fun _ ↦ hvalue _) item _ h error rfl

/-! ## Lists -/

theorem readList_eq_ok_iff_forall₂ {list : Sequence} {files : List FileEntry} :
    readList list = .ok files ↔ List.Forall₂ Element.IsEntry list files := by
  rw [readList, readEach_eq_ok_iff]
  exact ⟨List.Forall₂.imp fun _ _ ↦ isEntry_iff.mpr, List.Forall₂.imp fun _ _ ↦ isEntry_iff.mp⟩

theorem readList_eq_error_iff {list : Sequence} {error : ParseError} :
    readList list = .error error ↔
      ∃ before e after, list = before ++ e :: after ∧ (∀ x ∈ before, ∃ entry, x.IsEntry entry) ∧
        ofElement before.length e = .error error := by
  rw [readList, readEach_eq_error_iff]
  simp only [isEntry_iff, ofElement, Nat.zero_add]

/-- **A file list is all or nothing.**  It is read exactly if each of its elements is an entry, as
these entries in their order.  Otherwise it has the error of the first element that is none,
whatever stands behind it.  An element that is no SEQUENCE, or one of octets that are no elements,
is a fault of the list at that position; any other structural fault is one of the entry. -/
theorem readList_all_or_first_fault (list : Sequence) :
    (∀ files, readList list = .ok files ↔ List.Forall₂ Element.IsEntry list files) ∧
      (∀ error, readList list = .error error ↔
        ∃ before e after, list = before ++ e :: after ∧
          (∀ x ∈ before, ∃ entry, x.IsEntry entry) ∧ ofElement before.length e = .error error) ∧
      ∀ position e,
        (∀ entry, ofElement position e = .ok entry ↔ e.IsEntry entry) ∧
        (¬ e.IsSequence → ofElement position e = .error (.structural
          ⟨some .fileList, .unexpectedElement position .sequence e.tag e.constructed⟩)) ∧
        (e.IsSequence → Element.readAll? e.content = none → ofElement position e =
          .error (.structural ⟨some .fileList, .badEncoding position .sequence⟩)) ∧
        ∀ item, e.IsSequence → Element.readAll? e.content = some item →
          ofElement position e = ofElements item ∧
            ∀ error, ofElements item = .error (.structural error) →
              error.field = some .fileAndHash := by
  refine ⟨fun _ ↦ readList_eq_ok_iff_forall₂, fun _ ↦ readList_eq_error_iff,
    fun position e ↦ ⟨fun _ ↦ ofElement_eq_ok_iff, fun h ↦ ?_, fun h hcontent ↦ ?_,
      fun item h hcontent ↦ ⟨?_, fun error herror ↦ ?_⟩⟩⟩
  · exact ofElement_of_not_isSequence h position
  · exact ofElement_of_not_elements h hcontent position
  · exact ofElement_of_elements h hcontent position
  · exact field_of_ofElements_eq_error herror

/-- An entry, then an INTEGER in the place of one, then a SEQUENCE whose one octet is no element. -/
theorem readList_all_or_first_fault_second :
    let entry : FileEntry := ⟨"a.roa", ⟨List.replicate 32 0xAB, rfl⟩⟩
    let number : Element := ⟨.integer, false, [0x01]⟩
    let broken : Element := ⟨.sequence, true, [0xFF]⟩
    let error : ParseError :=
      .structural ⟨some .fileList, .unexpectedElement 1 .sequence .integer false⟩
    readList [entry.element] = .ok [entry] ∧ ¬ number.IsSequence ∧
      ofElement 1 number = .error error ∧
        readList [entry.element, number, broken] = .error error := by
  intro entry number broken error
  have hread : readList [entry.element] = .ok [entry] := by decide +kernel +zetaReduce
  have hnumber : ¬ number.IsSequence := fun h ↦ absurd h.1 (by decide)
  obtain ⟨hall, -, -⟩ := readList_all_or_first_fault [entry.element]
  obtain ⟨-, hfirst, hattributed⟩ := readList_all_or_first_fault [entry.element, number, broken]
  have herror : ofElement 1 number = .error error := (hattributed 1 number).2.1 hnumber
  have hentry : entry.element.IsEntry entry :=
    (List.forall₂_cons.mp ((hall [entry]).mp hread)).1
  refine ⟨hread, hnumber, herror, (hfirst error).mpr ⟨[entry.element], number, [broken], rfl, ?_,
    herror⟩⟩
  rintro x hx
  rw [List.mem_singleton.mp hx]
  exact ⟨entry, hentry⟩

end FileEntry

end Rpki
