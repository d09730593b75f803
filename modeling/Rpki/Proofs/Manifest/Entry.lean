import Rpki.Manifest.Entry
import Rpki.Proofs.Der.Content
import Rpki.Proofs.SignedObject

/-!
# Entries have one spelling

An entry of a file list is read exactly from the SEQUENCE of its name and its hash, which is
`FileEntry.element`, and a list of entries from the sequence of these
(`FileEntry.readList_eq_ok_iff`).  So a file list that has been read is determined by the entries,
and by their order.

Not every entry can be in a list.  Its name is an IA5String there, so it has to be ASCII, which
`FileName.IsListable` adds to the rules for names.
-/

set_option autoImplicit false

namespace Rpki

open Der

/-! ## Digests -/

theorem Digest.ofOctets_eq_ok_iff {o : Octets} {d : Digest} : ofOctets o = .ok d ↔ o = d.val := by
  rw [ofOctets]
  constructor
  · intro h
    split at h
    · next d hd =>
      obtain rfl := Except.ok.inj h
      rw [FixedOctets.ofOctets?] at hd
      split at hd
      · exact congrArg Subtype.val (Option.some.inj hd)
      · exact nomatch hd
    · exact nomatch h
  · rintro rfl
    have hread : FixedOctets.ofOctets? d.val = some d := dif_pos d.property
    rw [hread]

/-! ## Names -/

/-- The rules for names. -/
theorem FileName.isValid_iff {name : String} :
    isValid name = true ↔
      5 ≤ name.utf8ByteSize ∧ ∀ c ∈ name.toList, c ≠ '/' ∧ c ≠ '\\' ∧ c ≠ '\x00' := by
  have hreserved (c : Char) : isReserved c = false ↔ c ≠ '/' ∧ c ≠ '\\' ∧ c ≠ '\x00' := by
    simp [isReserved, and_assoc]
  simp only [isValid, Bool.and_eq_true, Bool.not_eq_true', List.any_eq_false, Bool.not_eq_true,
    hreserved, decide_eq_true_eq]
  exact and_comm

/-- A name that an entry of a file list may have. -/
structure FileName.IsListable (name : String) : Prop where
  ascii : ∀ c ∈ name.toList, c.toNat < 0x80
  isValid : FileName.isValid name = true

/-! ## Entries -/

namespace FileEntry

/-- The elements of an entry. -/
def elements (e : FileEntry) : Sequence :=
  [⟨.ia5String, false, Octets.ofString e.file⟩, ⟨.bitString, false, 0 :: e.hash.val⟩]

/-- The SEQUENCE that an entry is. -/
def element (e : FileEntry) : Element := .ofSequence e.elements

theorem regularIfShort_elements (e : FileEntry) : ∀ x ∈ e.elements, x.RegularIfShort := by
  intro x hx
  simp only [elements, List.mem_cons, List.not_mem_nil, or_false] at hx
  rcases hx with rfl | rfl
  · exact Element.regularIfShort_primitive .ia5String _
  · exact Element.regularIfShort_primitive .bitString _

theorem regularIfShort_list (files : List FileEntry) :
    ∀ x ∈ files.map element, x.RegularIfShort := by
  intro x hx
  obtain ⟨e, -, rfl⟩ := List.mem_map.mp hx
  exact Element.regularIfShort_ofSequence e.regularIfShort_elements

/-- The elements of a file list can be read, unless the list is too long. -/
theorem isRegular_of_mem_list {files : List FileEntry}
    (hlt : (Element.ofSequence (files.map element)).content.length < 2 ^ 32) {e : FileEntry}
    (he : e ∈ files) : (∀ x ∈ e.elements, x.IsRegular) ∧ e.element.IsRegular := by
  have hentry : e.element.IsRegular :=
    Element.isRegular_of_mem (regularIfShort_list files) hlt _ (List.mem_map_of_mem he)
  exact ⟨Element.isRegular_of_mem e.regularIfShort_elements hentry.lt, hentry⟩

/-- **An entry is read exactly from its elements.** -/
theorem ofElements_eq_ok_iff {item : Sequence} {e : FileEntry} :
    ofElements item = .ok e ↔ FileName.IsListable e.file ∧ item = e.elements := by
  simp only [ofElements, bind_eq_ok_iff, inField_eq_ok_iff, Sequence.checkCount_eq_ok_iff,
    Sequence.ia5String, Sequence.bitString, Sequence.contentAt_eq_ok_iff]
  refine ⟨fun h ↦ ?_, fun h ↦ ?_⟩
  · obtain ⟨_, ⟨hcount, -⟩, _ | file, ⟨name, hname, htext⟩, h⟩ := h
    · exact nomatch h
    · simp only [bind_eq_ok_iff, asValue_eq_ok_iff, inField_eq_ok_iff,
        Sequence.contentAt_eq_ok_iff] at h
      obtain ⟨_, hcheck, hash, ⟨bits, hbits, hread⟩, h⟩ := h
      split at h
      · next hunused =>
        simp only [bind_eq_ok_iff, asValue_eq_ok_iff, pure_eq_ok_iff] at h
        obtain ⟨digest, hdigest, rfl⟩ := h
        obtain ⟨hascii, rfl⟩ := Sequence.asciiText?_eq_some_iff.mp (Option.some.inj htext)
        rw [BitString.read?_eq_some_iff, hunused, Digest.ofOctets_eq_ok_iff.mp hdigest] at hread
        subst hread
        refine ⟨⟨hascii, (FileName.check_eq_ok_iff file).mp hcheck⟩, ?_⟩
        obtain ⟨first, second, rfl⟩ := List.length_eq_two.mp (List.mem_singleton.mp hcount)
        rw [Option.some.inj hname, Option.some.inj hbits]
        rfl
      · exact nomatch h
  · obtain ⟨⟨hascii, hvalid⟩, rfl⟩ := h
    have hbits : BitString.read? (0 :: e.hash.val) =
        some ⟨0, e.hash.val, BitString.isRegular_zero _⟩ := BitString.read?_eq_some_iff.mpr rfl
    refine ⟨2, ⟨List.mem_singleton.mpr rfl, rfl⟩, some e.file, ⟨_, rfl, congrArg some ?_⟩, ?_⟩
    · exact Sequence.asciiText?_eq_some_iff.mpr ⟨hascii, rfl⟩
    · simp only [bind_eq_ok_iff, asValue_eq_ok_iff, inField_eq_ok_iff,
        Sequence.contentAt_eq_ok_iff]
      refine ⟨(), (FileName.check_eq_ok_iff _).mpr hvalid, _, ⟨_, rfl, hbits⟩, ?_⟩
      rw [if_pos rfl, bind_eq_ok_iff]
      exact ⟨e.hash, asValue_eq_ok_iff.mpr (Digest.ofOctets_eq_ok_iff.mpr rfl), rfl⟩

/-- **A file list is read exactly from the elements of its entries.** -/
theorem readList_eq_ok_iff {list : Sequence} {files : List FileEntry} :
    readList list = .ok files ↔
      (∀ e ∈ files, FileName.IsListable e.file ∧ ∀ x ∈ e.elements, x.IsRegular) ∧
        list = files.map element := by
  have hitem (x : Element) (e : FileEntry) :
      (∃ s, (∀ y ∈ s, y.IsRegular) ∧ x = .ofSequence s ∧ ofElements s = .ok e) ↔
        (FileName.IsListable e.file ∧ ∀ y ∈ e.elements, y.IsRegular) ∧ x = e.element := by
    refine ⟨fun h ↦ ?_, fun h ↦ ?_⟩
    · obtain ⟨s, hs, rfl, h⟩ := h
      obtain ⟨hname, rfl⟩ := ofElements_eq_ok_iff.mp h
      exact ⟨⟨hname, hs⟩, rfl⟩
    · obtain ⟨⟨hname, hs⟩, rfl⟩ := h
      exact ⟨_, hs, rfl, ofElements_eq_ok_iff.mpr ⟨hname, rfl⟩⟩
  rw [readList, readEach_eq_ok_iff]
  simp only [hitem]
  induction files generalizing list with
  | nil => simp
  | cons e files ih =>
    rw [List.forall₂_cons_right_iff, List.map_cons, List.forall_mem_cons]
    refine ⟨fun h ↦ ?_, fun h ↦ ?_⟩
    · obtain ⟨x, list', ⟨he, rfl⟩, hrest, rfl⟩ := h
      obtain ⟨hfiles, rfl⟩ := ih.mp hrest
      exact ⟨⟨he, hfiles⟩, rfl⟩
    · obtain ⟨⟨he, hfiles⟩, rfl⟩ := h
      exact ⟨_, _, ⟨he, rfl⟩, ih.mpr ⟨hfiles, rfl⟩, rfl⟩

end FileEntry

end Rpki
