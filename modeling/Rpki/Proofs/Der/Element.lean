import Rpki.Der.Element
import Rpki.Proofs.Der.Value

/-!
# Elements have one spelling

An element keeps its tag and its content and forgets its header.  Nothing is lost with it, since
`Element.octets` writes the only header with which the element could have been read.

* `Element.read?_eq_some_iff`: an element is read exactly from its octets.
* `Element.readAll?_eq_some_iff`: elements are read exactly from their octets joined together.

`Element.IsRegular` says which elements there are to be read.  Their octets are also stepped over as
values, which `Element.IsRegular.spans` says: an element can be put into a sequence again.
-/

set_option autoImplicit false

namespace Rpki

namespace Der

namespace Element

/-- An element that can be read: a tag that is no end of an indefinite value, a content that is not
too long for its length to be written, and values in it if the element is constructed. -/
structure IsRegular (e : Element) : Prop where
  tag : e.tag.IsRegular
  ne_end : e.tag ≠ .endOfContents
  lt : e.content.length < 2 ^ 32
  content : e.constructed = true → Value.Spans .definite e.content

theorem length_octets (e : Element) :
    e.octets.length =
      e.tag.following.length + 1 + (Length.width e.content.length + 1) + e.content.length := by
  rw [octets, List.length_append, List.length_append, Tag.length_octets, Length.length_octets]

theorem two_le_length_octets (e : Element) : 2 ≤ e.octets.length := by
  rw [length_octets]
  omega

theorem length_content_le (e : Element) : e.content.length ≤ e.octets.length := by
  rw [length_octets]
  omega

/-- The header of an element that can be read says what the element has kept of it. -/
theorem IsRegular.header_octets_append {e : Element} (h : e.IsRegular) (rest : Octets) :
    Header.read? (e.octets ++ rest) =
      some (⟨e.tag, e.constructed, .definite e.content.length⟩, e.content ++ rest) :=
  Header.read?_definite_iff.mpr ⟨h.tag, h.lt, List.append_assoc _ _ _⟩

theorem IsRegular.header_octets {e : Element} (h : e.IsRegular) :
    Header.read? e.octets =
      some (⟨e.tag, e.constructed, .definite e.content.length⟩, e.content) := by
  simpa only [List.append_nil] using h.header_octets_append []

/-- An element that can be read is stepped over as a value. -/
theorem IsRegular.spans {e : Element} (h : e.IsRegular) : Value.Spans .single e.octets := by
  obtain ⟨tag, constructed, content⟩ := e
  cases constructed with
  | false => exact .primitive h.tag h.ne_end h.lt
  | true => exact .constructed h.tag h.lt (h.content rfl)

/-- Elements that can be read are stepped over as the content of a constructed value. -/
theorem spans_flatMap_octets {es : List Element} (h : ∀ e ∈ es, e.IsRegular) :
    Value.Spans .definite (es.flatMap octets) := by
  induction es with
  | nil => exact .nil
  | cons e es ih =>
    rw [List.flatMap_cons]
    exact .cons (h e (by simp)).spans (ih fun e he ↦ h e (List.mem_cons_of_mem _ he))

/-- **An element is read exactly from its octets.** -/
theorem read?_eq_some_iff {s rest : Octets} {e : Element} :
    read? s = some (e, rest) ↔ e.IsRegular ∧ s = e.octets ++ rest := by
  refine ⟨fun h ↦ ?_, fun h ↦ ?_⟩
  · simp only [read?, Option.bind_eq_bind, Option.bind_eq_some_iff] at h
    obtain ⟨⟨⟨t, c, length⟩, body⟩, hread, h⟩ := h
    cases length with
    | indefinite => simp at h
    | definite n =>
      obtain ⟨hregular, hlt, rfl⟩ := Header.read?_definite_iff.mp hread
      simp only [Option.bind_eq_some_iff] at h
      obtain ⟨⟨content, rest'⟩, htake, h⟩ := h
      rw [FixedOctets.take?_eq_some_iff] at htake
      subst htake
      split at h
      · simp at h
      · next hgood =>
        rw [not_or, not_and, Bool.not_eq_false] at hgood
        simp only [Option.pure_def, Option.some.injEq, Prod.mk.injEq] at h
        obtain ⟨rfl, rfl⟩ := h
        refine ⟨⟨hregular, hgood.1, by rw [content.property]; exact hlt,
          fun hc ↦ Value.isContent_iff.mp (hgood.2 hc)⟩, ?_⟩
        rw [octets, content.property, List.append_assoc _ content.val]
  · obtain ⟨he, rfl⟩ := h
    have hread := he.header_octets_append rest
    have htake : FixedOctets.take? e.content.length (e.content ++ rest) =
        some (⟨e.content, rfl⟩, rest) := FixedOctets.take?_eq_some_iff.mpr rfl
    have hgood : ¬ (e.tag = .endOfContents ∨
        (e.constructed = true ∧ Value.isContent e.content = false)) := by
      rintro (heq | ⟨hc, hbad⟩)
      · exact he.ne_end heq
      · rw [Value.isContent_iff.mpr (he.content hc)] at hbad
        exact Bool.noConfusion hbad
    simp only [read?, hread, htake, Option.bind_eq_bind, Option.bind_some, Option.pure_def,
      if_neg hgood]

theorem readWithin_eq_some_iff {limit : Nat} {s : Octets} {es : List Element} :
    readWithin limit s = some es ↔
      (∀ e ∈ es, e.IsRegular) ∧ s = es.flatMap octets ∧ es.length ≤ limit := by
  induction limit generalizing s es with
  | zero =>
    cases s with
    | nil =>
      rw [readWithin, Option.some.injEq]
      constructor
      · rintro rfl
        exact ⟨by simp, rfl, Nat.le_refl 0⟩
      · rintro ⟨-, -, hlen⟩
        exact (List.length_eq_zero_iff.mp (Nat.le_zero.mp hlen)).symm
    | cons b s =>
      refine ⟨fun h ↦ ?_, fun h ↦ ?_⟩
      · simp [readWithin] at h
      · obtain ⟨-, heq, hlen⟩ := h
        rw [List.length_eq_zero_iff.mp (Nat.le_zero.mp hlen)] at heq
        simp at heq
  | succ limit ih =>
    cases es with
    | nil =>
      cases s with
      | nil => simp [readWithin]
      | cons b s => simp [readWithin, Option.bind_eq_some_iff]
    | cons e es =>
      have hstep : readWithin (limit + 1) s = some (e :: es) ↔
          ∃ rest, read? s = some (e, rest) ∧ readWithin limit rest = some es := by
        cases s with
        | nil => simp [readWithin, read?, Header.read?, Tag.read?]
        | cons b s => simp [readWithin, Option.bind_eq_some_iff]
      rw [hstep, List.flatMap_cons, List.length_cons, List.forall_mem_cons]
      refine ⟨fun h ↦ ?_, fun h ↦ ?_⟩
      · obtain ⟨rest, hread, hwithin⟩ := h
        obtain ⟨he, rfl⟩ := read?_eq_some_iff.mp hread
        obtain ⟨hes, rfl, hlen⟩ := ih.mp hwithin
        exact ⟨⟨he, hes⟩, rfl, Nat.succ_le_succ hlen⟩
      · obtain ⟨⟨he, hes⟩, rfl, hlen⟩ := h
        exact ⟨es.flatMap octets, read?_eq_some_iff.mpr ⟨he, rfl⟩,
          ih.mpr ⟨hes, rfl, Nat.le_of_succ_le_succ hlen⟩⟩

/-- There are no more elements than octets. -/
theorem length_le_length_flatMap_octets (es : List Element) :
    es.length ≤ (es.flatMap octets).length := by
  induction es with
  | nil => exact Nat.le_refl 0
  | cons e es ih =>
    have he := two_le_length_octets e
    rw [List.flatMap_cons, List.length_append, List.length_cons]
    omega

/-- **Elements are read exactly from their octets joined together.** -/
theorem readAll?_eq_some_iff {s : Octets} {es : List Element} :
    readAll? s = some es ↔ (∀ e ∈ es, e.IsRegular) ∧ s = es.flatMap octets := by
  rw [readAll?, readWithin_eq_some_iff]
  refine ⟨fun h ↦ ?_, fun h ↦ ?_⟩
  · obtain ⟨hes, heq, -⟩ := h
    exact ⟨hes, heq⟩
  · obtain ⟨hes, rfl⟩ := h
    exact ⟨hes, rfl, length_le_length_flatMap_octets es⟩

end Element

end Der

end Rpki
