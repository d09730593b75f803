import Rpki.Manifest.Content
import Rpki.Proofs.Manifest.Entry
import Rpki.Proofs.Manifest.Number
import Rpki.Proofs.Validity

/-!
# Manifest content has one spelling

There is no slack in the content of a manifest.  `ManifestContent.element` is the SEQUENCE that some
content is, down to the last octet, and `ManifestContent.decode_eq_ok_iff` says that the content is
read exactly from the octets of that element, if it `IsReadable`: times in the years of four digits,
names that can be listed, and not more octets than a length can say.

Reading comes in two steps, and the second is left out for manifests that are out of date.  Hence
the elements are taken apart in `Head.decode_eq_ok_iff` and `Head.files_eq_ok_iff` separately.
-/

set_option autoImplicit false

namespace Rpki

open Der

namespace ManifestContent

/-! ## Content as an element -/

/-- The elements of the content. -/
def elements (c : ManifestContent) : Sequence :=
  [⟨.integer, false, c.number.content⟩,
   ⟨.generalizedTime, false, GeneralizedTime.content c.window.thisUpdate⟩,
   ⟨.generalizedTime, false, GeneralizedTime.content c.window.nextUpdate⟩,
   ⟨.objectIdentifier, false, Oid.sha256.octets⟩,
   .ofSequence (c.files.map FileEntry.element)]

/-- The SEQUENCE that the content is. -/
def element (c : ManifestContent) : Element := .ofSequence c.elements

/-- Content that can be read. -/
structure IsReadable (c : ManifestContent) : Prop where
  window : c.window.IsGeneralized
  files : ∀ e ∈ c.files, FileName.IsListable e.file
  /-- The elements are not too long for their length to be written. -/
  lt : c.element.content.length < 2 ^ 32

theorem regularIfShort_elements (c : ManifestContent) : ∀ x ∈ c.elements, x.RegularIfShort := by
  intro x hx
  simp only [elements, List.mem_cons, List.not_mem_nil, or_false] at hx
  rcases hx with rfl | rfl | rfl | rfl | rfl
  · exact Element.regularIfShort_primitive .integer _
  · exact Element.regularIfShort_primitive .generalizedTime _
  · exact Element.regularIfShort_primitive .generalizedTime _
  · exact Element.regularIfShort_primitive .objectIdentifier _
  · exact Element.regularIfShort_ofSequence (FileEntry.regularIfShort_list c.files)

/-! ## Reading -/

/-- **The content up to the times** is read exactly from five elements of which the first three are
those of the number and of the window. -/
theorem Head.decode_eq_ok_iff {content : Octets} {h : Head} :
    Head.decode content = .ok h ↔
      Sequence.decode content = .ok h.elements ∧ h.elements.length = 5 ∧
        h.elements[0]? = some ⟨.integer, false, h.number.content⟩ ∧
        h.elements[1]? =
          some ⟨.generalizedTime, false, GeneralizedTime.content h.window.thisUpdate⟩ ∧
        h.elements[2]? =
          some ⟨.generalizedTime, false, GeneralizedTime.content h.window.nextUpdate⟩ ∧
        h.window.IsGeneralized := by
  simp only [Head.decode, bind_eq_ok_iff, inField_eq_ok_iff, Sequence.checkCount_eq_ok_iff]
  refine ⟨fun h ↦ ?_, fun h ↦ ?_⟩
  · obtain ⟨es, hes, _, ⟨hcount, rfl⟩, h⟩ := h
    split at h
    · exact nomatch h
    · next hsix =>
      simp only [bind_eq_ok_iff, inField_eq_ok_iff, asValue_eq_ok_iff, mapError_eq_ok_iff,
        pure_eq_ok_iff, Sequence.generalizedTime_eq_ok_iff,
        ValidityWindow.ofGeneralizedTimes_eq_ok_iff] at h
      obtain ⟨i, hi, number, hnumber, _, hthis, _, hnext, window, ⟨hwindow, rfl, rfl⟩, rfl⟩ := h
      have hfive : es.length = 5 := by simpa [hsix] using hcount
      exact ⟨hes, hfive, ManifestNumber.exists_integer_iff.mp ⟨i, hi, hnumber⟩, hthis, hnext,
        hwindow⟩
  · obtain ⟨hes, hfive, hnumber, hthis, hnext, hwindow⟩ := h
    obtain ⟨i, hi, hnumber⟩ := ManifestNumber.exists_integer_iff.mpr hnumber
    refine ⟨h.elements, hes, 5, ⟨by rw [hfive]; decide, hfive⟩, ?_⟩
    rw [if_neg (by decide)]
    simp only [bind_eq_ok_iff, inField_eq_ok_iff, asValue_eq_ok_iff, mapError_eq_ok_iff,
      pure_eq_ok_iff, Sequence.generalizedTime_eq_ok_iff,
      ValidityWindow.ofGeneralizedTimes_eq_ok_iff]
    exact ⟨i, hi, h.number, hnumber, _, hthis, _, hnext, h.window, ⟨hwindow, rfl, rfl⟩, rfl⟩

/-- **The file list** is read exactly from a fourth element that is the one digest algorithm, and a
fifth that is the sequence of the entries. -/
theorem Head.files_eq_ok_iff {h : Head} {files : List FileEntry} :
    h.files = .ok files ↔
      h.elements[3]? = some ⟨.objectIdentifier, false, Oid.sha256.octets⟩ ∧
        h.elements[4]? = some (.ofSequence (files.map FileEntry.element)) ∧
        ∀ e ∈ files, FileName.IsListable e.file ∧ (∀ x ∈ e.elements, x.IsRegular) ∧
          e.element.IsRegular := by
  simp only [Head.files, bind_eq_ok_iff, inField_eq_ok_iff, Sequence.oid,
    Sequence.contentAt_eq_ok_iff, Oid.read?_eq_some_iff]
  refine ⟨fun h ↦ ?_, fun h ↦ ?_⟩
  · obtain ⟨algorithm, ⟨_, halg, rfl, -⟩, h⟩ := h
    split at h
    · next hsha =>
      simp only [bind_eq_ok_iff, inField_eq_ok_iff, Sequence.sequence_eq_ok_iff,
        FileEntry.readList_eq_ok_iff] at h
      obtain ⟨_, ⟨hregular, hlist⟩, hfiles, rfl⟩ := h
      rw [hsha] at halg
      exact ⟨halg, hlist, fun e he ↦ ⟨(hfiles e he).1, (hfiles e he).2,
        hregular _ (List.mem_map_of_mem he)⟩⟩
    · exact nomatch h
  · obtain ⟨halg, hlist, hfiles⟩ := h
    refine ⟨.sha256, ⟨_, halg, rfl, 0x01, rfl, by decide⟩, ?_⟩
    rw [if_pos rfl]
    simp only [bind_eq_ok_iff, inField_eq_ok_iff, Sequence.sequence_eq_ok_iff,
      FileEntry.readList_eq_ok_iff]
    refine ⟨_, ⟨fun x hx ↦ ?_, hlist⟩, fun e he ↦ ⟨(hfiles e he).1, (hfiles e he).2.1⟩, rfl⟩
    obtain ⟨e, he, rfl⟩ := List.mem_map.mp hx
    exact (hfiles e he).2.2

/-- A file list that has been read is as short as lengths are. -/
theorem Head.lengths_lt {content : Octets} {h : Head} {files : List FileEntry}
    (hhead : Head.decode content = .ok h) (hfiles : h.files = .ok files) :
    files.length < 2 ^ 32 ∧ ∀ e ∈ files, e.file.utf8ByteSize < 2 ^ 32 := by
  obtain ⟨hregular, -⟩ := Sequence.decode_eq_ok_iff.mp (Head.decode_eq_ok_iff.mp hhead).1
  obtain ⟨-, hlist, hentries⟩ := Head.files_eq_ok_iff.mp hfiles
  constructor
  · have hlt := (hregular _ (List.mem_of_getElem? hlist)).lt
    have hle := Element.length_le_length_flatMap_octets (files.map FileEntry.element)
    rw [List.length_map] at hle
    exact Nat.lt_of_le_of_lt hle hlt
  · intro e he
    exact ((hentries e he).2.1 _ List.mem_cons_self).lt

/-- **Content is read exactly from the octets of its element.** -/
theorem decode_eq_ok_iff {content : Octets} {c : ManifestContent} :
    decode content = .ok c ↔ c.IsReadable ∧ content = c.element.octets := by
  simp only [decode, bind_eq_ok_iff, pure_eq_ok_iff, Head.decode_eq_ok_iff, Head.files_eq_ok_iff,
    Sequence.decode_eq_ok_iff]
  refine ⟨fun h ↦ ?_, fun h ↦ ?_⟩
  · obtain ⟨⟨number, window, es⟩, ⟨⟨-, hlt, rfl⟩, hfive, hnumber, hthis, hnext, hwindow⟩, files,
        ⟨halg, hlist, hfiles⟩, rfl⟩ := h
    have hes : es = elements ⟨number, window, files⟩ := by
      refine List.ext_getElem? fun position ↦ ?_
      rcases position with _ | _ | _ | _ | _ | position
      · exact hnumber
      · exact hthis
      · exact hnext
      · exact halg
      · exact hlist
      · rw [List.getElem?_eq_none (by rw [hfive]; omega),
          List.getElem?_eq_none (by simp [elements])]
    subst hes
    exact ⟨⟨hwindow, fun e he ↦ (hfiles e he).1, hlt⟩, rfl⟩
  · obtain ⟨⟨hwindow, hnames, hlt⟩, rfl⟩ := h
    have hregular := Element.isRegular_of_mem c.regularIfShort_elements hlt
    refine ⟨⟨c.number, c.window, c.elements⟩,
      ⟨⟨hregular, hlt, rfl⟩, rfl, rfl, rfl, rfl, hwindow⟩, c.files,
      ⟨rfl, rfl, fun e he ↦ ⟨hnames e he, ?_⟩⟩, rfl⟩
    have hlist : (Element.ofSequence (c.files.map FileEntry.element)).content.length < 2 ^ 32 :=
      Nat.lt_of_le_of_lt (Element.length_content_le_of_mem (by simp [elements])) hlt
    exact FileEntry.isRegular_of_mem_list hlist he

end ManifestContent

end Rpki
