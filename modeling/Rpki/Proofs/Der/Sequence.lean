import Rpki.Der.Sequence
import Rpki.Proofs.Der.Element
import Rpki.Proofs.Error

/-!
# Sequences have one spelling

`Sequence.decode` reads elements from exactly one string of octets: that of the SEQUENCE that holds
them, which is `Element.ofSequence`.  It first steps over the value as a whole and reads it a second
time for its elements; `Sequence.decode_eq_ok_iff` says that the first pass refuses nothing that the
second one would take.

The functions that ask for the element at a position are all `Sequence.contentAt` with a reader for
the content, so `Sequence.contentAt_eq_ok_iff` is what any of them says about the sequence.
-/

set_option autoImplicit false

namespace Rpki

namespace Der

theorem Kind.isRegular_tag (kind : Kind) : kind.tag.IsRegular := by
  cases kind <;> exact Tag.isRegular_mk (by decide) (by decide)

theorem Kind.tag_ne_endOfContents (kind : Kind) : kind.tag ≠ .endOfContents := by
  cases kind <;> decide

/-- The SEQUENCE that holds the elements. -/
def Element.ofSequence (es : Sequence) : Element := ⟨.sequence, true, es.flatMap Element.octets⟩

/-- A sequence of elements that can be read can be read itself, unless it is too long. -/
theorem Element.isRegular_ofSequence {es : Sequence} (h : ∀ e ∈ es, e.IsRegular)
    (hlt : (es.flatMap Element.octets).length < 2 ^ 32) : (Element.ofSequence es).IsRegular where
  tag := Kind.isRegular_tag .sequence
  ne_end := Kind.tag_ne_endOfContents .sequence
  lt := hlt
  content _ := Element.spans_flatMap_octets h

/-- A primitive element of some kind can be read, unless it is too long. -/
theorem Element.isRegular_primitive (kind : Kind) {content : Octets}
    (hlt : content.length < 2 ^ 32) : Element.IsRegular ⟨kind.tag, false, content⟩ where
  tag := kind.isRegular_tag
  ne_end := kind.tag_ne_endOfContents
  lt := hlt
  content h := nomatch h

/-- An element is asked for with success exactly if it has the tag and the form of the kind and its
content can be read. -/
theorem Element.contentAs_eq_ok_iff {α : Type} {e : Element} {position : Nat} {kind : Kind}
    {read? : Octets → Option α} {a : α} :
    e.contentAs position kind read? = .ok a ↔
      ∃ content, e = ⟨kind.tag, kind.isConstructed, content⟩ ∧ read? content = some a := by
  obtain ⟨tag, constructed, content⟩ := e
  simp only [contentAs, expect, bind_eq_ok_iff]
  refine ⟨fun h ↦ ?_, fun h ↦ ?_⟩
  · obtain ⟨e, hexpect, hread⟩ := h
    split at hexpect
    · next hkind =>
      obtain rfl := Except.ok.inj hexpect
      dsimp only at hkind hread
      obtain ⟨rfl, rfl⟩ := hkind
      split at hread
      · next hcontent =>
        obtain rfl := Except.ok.inj hread
        exact ⟨content, rfl, hcontent⟩
      · simp [fail] at hread
    · simp [fail] at hexpect
  · obtain ⟨content', heq, hread⟩ := h
    obtain ⟨rfl, rfl, rfl⟩ := Element.mk.inj heq
    exact ⟨_, if_pos ⟨rfl, rfl⟩, by simp only [hread]⟩

/-- The elements of an element are read exactly if it is the SEQUENCE that holds them. -/
theorem Element.sequence_eq_ok_iff {e : Element} {position : Nat} {es : Sequence} :
    e.sequence position = .ok es ↔ (∀ x ∈ es, x.IsRegular) ∧ e = .ofSequence es := by
  rw [Element.sequence, contentAs_eq_ok_iff]
  refine ⟨fun h ↦ ?_, fun h ↦ ?_⟩
  · obtain ⟨content, rfl, hread⟩ := h
    obtain ⟨hes, rfl⟩ := readAll?_eq_some_iff.mp hread
    exact ⟨hes, rfl⟩
  · obtain ⟨hes, rfl⟩ := h
    exact ⟨_, rfl, readAll?_eq_some_iff.mpr ⟨hes, rfl⟩⟩

/-- A SEQUENCE determines the elements it holds, if they can be read. -/
theorem Element.ofSequence_inj {es es' : Sequence} (h : ∀ x ∈ es, x.IsRegular)
    (h' : ∀ x ∈ es', x.IsRegular) (heq : ofSequence es = ofSequence es') : es = es' := by
  have hread : (ofSequence es).sequence 0 = .ok es := sequence_eq_ok_iff.mpr ⟨h, rfl⟩
  have hread' : (ofSequence es).sequence 0 = .ok es' := sequence_eq_ok_iff.mpr ⟨h', heq⟩
  exact Except.ok.inj (hread.symm.trans hread')

/-- No element is longer than the sequence it is in. -/
theorem Element.length_content_le_of_mem {e : Element} {es : Sequence} (h : e ∈ es) :
    e.content.length ≤ (Element.ofSequence es).content.length := by
  refine Nat.le_trans e.length_content_le ?_
  rw [ofSequence, List.flatMap_def]
  exact (List.sublist_flatten_of_mem (List.mem_map_of_mem h)).length_le

/-! ## Elements that are short enough -/

/-- An element that can be read unless it is too long for its length to be written.  Nesting keeps
this, so it is settled for all elements of a grammar at once, and the one thing left to ask about
an element is its length. -/
def Element.RegularIfShort (e : Element) : Prop := e.content.length < 2 ^ 32 → e.IsRegular

theorem Element.regularIfShort_primitive (kind : Kind) (content : Octets) :
    RegularIfShort ⟨kind.tag, false, content⟩ :=
  fun hlt ↦ isRegular_primitive kind hlt

/-- The elements of a sequence that is short enough can be read, since none is longer. -/
theorem Element.isRegular_of_mem {es : Sequence} (h : ∀ e ∈ es, e.RegularIfShort)
    (hlt : (Element.ofSequence es).content.length < 2 ^ 32) : ∀ e ∈ es, e.IsRegular :=
  fun e he ↦ h e he (Nat.lt_of_le_of_lt (length_content_le_of_mem he) hlt)

theorem Element.regularIfShort_ofSequence {es : Sequence} (h : ∀ e ∈ es, e.RegularIfShort) :
    (Element.ofSequence es).RegularIfShort :=
  fun hlt ↦ isRegular_ofSequence (isRegular_of_mem h hlt) hlt

namespace Sequence

/-! ## Decoding -/

/-- **Elements are read exactly from the SEQUENCE that holds them.** -/
theorem decode_eq_ok_iff {data : Octets} {es : Sequence} :
    decode data = .ok es ↔
      (∀ e ∈ es, e.IsRegular) ∧ (es.flatMap Element.octets).length < 2 ^ 32 ∧
        data = (Element.ofSequence es).octets := by
  refine ⟨fun h ↦ ?_, fun h ↦ ?_⟩
  · unfold decode at h
    split at h
    · simp [fail] at h
    · next hskip =>
      split at h
      · next tag n body hread =>
        split at h
        · next htag =>
          split at h
          · next es' hall =>
            obtain rfl := Except.ok.inj h
            obtain ⟨hregular, rfl⟩ := Element.readAll?_eq_some_iff.mp hall
            obtain ⟨v, hv, hdata⟩ := Value.skip?_eq_some_iff.mp hskip
            rw [List.append_nil] at hdata
            subst hdata htag
            have hlen := hv.length_eq_of_read? hread
            obtain ⟨-, hlt, hdata⟩ := Header.read?_definite_iff.mp hread
            subst hlen
            exact ⟨hregular, hlt, hdata⟩
          · simp [fail] at h
        · simp [fail] at h
      · simp [fail] at h
    · simp [fail] at h
  · obtain ⟨hregular, hlt, rfl⟩ := h
    have hseq := Element.isRegular_ofSequence hregular hlt
    have hskip : Value.skip? (Element.ofSequence es).octets = some [] :=
      Value.skip?_eq_some_iff.mpr ⟨_, hseq.spans, (List.append_nil _).symm⟩
    have hread : Header.read? (Element.ofSequence es).octets =
        some (⟨.sequence, true, .definite (es.flatMap Element.octets).length⟩,
          es.flatMap Element.octets) :=
      hseq.header_octets
    have hall := Element.readAll?_eq_some_iff.mpr ⟨hregular, rfl⟩
    simp only [decode, hskip, hread, hall, ↓reduceIte]

/-! ## Access to elements -/

theorem checkCount_eq_ok_iff {s : Sequence} {allowed : List Nat} {n : Nat} :
    s.checkCount allowed = .ok n ↔ s.length ∈ allowed ∧ s.length = n := by
  unfold checkCount
  split
  · next h => exact ⟨fun heq ↦ ⟨h, Except.ok.inj heq⟩, fun heq ↦ congrArg Except.ok heq.2⟩
  · next h => exact ⟨fun heq ↦ (nomatch heq), fun heq ↦ absurd heq.1 h⟩

theorem get_eq_ok_iff {s : Sequence} {position : Nat} {e : Element} :
    s.get position = .ok e ↔ s[position]? = some e := by
  unfold get
  cases s[position]? with
  | none => exact ⟨fun h ↦ (nomatch h), fun h ↦ (nomatch h)⟩
  | some e' =>
    exact ⟨fun h ↦ congrArg some (Except.ok.inj h), fun h ↦ congrArg Except.ok (Option.some.inj h)⟩

/-- **What asking for the element at a position says about the sequence**: the element has the tag
and the form of its kind, and its content is what the answer is read from. -/
theorem contentAt_eq_ok_iff {α : Type} {s : Sequence} {position : Nat} {kind : Kind}
    {read? : Octets → Option α} {a : α} :
    s.contentAt position kind read? = .ok a ↔
      ∃ content, s[position]? = some ⟨kind.tag, kind.isConstructed, content⟩ ∧
        read? content = some a := by
  rw [contentAt, bind_eq_ok_iff]
  refine ⟨fun h ↦ ?_, fun h ↦ ?_⟩
  · obtain ⟨e, hget, he⟩ := h
    obtain ⟨content, rfl, hread⟩ := Element.contentAs_eq_ok_iff.mp he
    exact ⟨content, get_eq_ok_iff.mp hget, hread⟩
  · obtain ⟨content, hget, hread⟩ := h
    exact ⟨_, get_eq_ok_iff.mpr hget, Element.contentAs_eq_ok_iff.mpr ⟨content, rfl, hread⟩⟩

/-- Where the answer is the content itself, nothing else is said. -/
theorem contentAt_some_eq_ok_iff {s : Sequence} {position : Nat} {kind : Kind} {content : Octets} :
    s.contentAt position kind some = .ok content ↔
      s[position]? = some ⟨kind.tag, kind.isConstructed, content⟩ := by
  rw [contentAt_eq_ok_iff]
  constructor
  · rintro ⟨_, hget, hread⟩
    rwa [Option.some.inj hread] at hget
  · exact fun hget ↦ ⟨content, hget, rfl⟩

theorem generalizedTime_eq_ok_iff {s : Sequence} {position : Nat} {content : Octets} :
    s.generalizedTime position = .ok content ↔
      s[position]? = some ⟨.generalizedTime, false, content⟩ :=
  contentAt_some_eq_ok_iff

theorem octetString_eq_ok_iff {s : Sequence} {position : Nat} {content : Octets} :
    s.octetString position = .ok content ↔ s[position]? = some ⟨.octetString, false, content⟩ :=
  contentAt_some_eq_ok_iff

/-- The elements of the SEQUENCE at a position are read exactly if it is the one that holds them. -/
theorem sequence_eq_ok_iff {s es : Sequence} {position : Nat} :
    s.sequence position = .ok es ↔
      (∀ e ∈ es, e.IsRegular) ∧ s[position]? = some (.ofSequence es) := by
  rw [sequence, contentAt, bind_eq_ok_iff]
  refine ⟨fun h ↦ ?_, fun h ↦ ?_⟩
  · obtain ⟨e, hget, he⟩ := h
    obtain ⟨hes, rfl⟩ := Element.sequence_eq_ok_iff.mp he
    exact ⟨hes, get_eq_ok_iff.mp hget⟩
  · obtain ⟨hes, hget⟩ := h
    exact ⟨_, get_eq_ok_iff.mpr hget, Element.sequence_eq_ok_iff.mpr ⟨hes, rfl⟩⟩

end Sequence

end Der

end Rpki
