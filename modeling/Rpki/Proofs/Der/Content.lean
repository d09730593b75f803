import Rpki.Der.Sequence
import Rpki.Proofs.Octets

/-!
# Contents have one spelling

The contents of the primitive kinds: each is read from one string of octets only, the one that the
value keeps.  An INTEGER and an OBJECT IDENTIFIER are their octets, a BIT STRING has one octet in
front of them that it keeps too, and an ASCII text is read from its UTF-8 form.
-/

set_option autoImplicit false

namespace Rpki

namespace Der

theorem Integer.read?_eq_some_iff {content : Octets} {i : Integer} :
    Integer.read? content = some i ↔ i.octets = content := by
  obtain ⟨octets, shortest⟩ := i
  rw [read?]
  constructor
  · intro h
    simp only [Option.dite_none_right_eq_some, Option.some.injEq, Integer.mk.injEq] at h
    exact h.2.symm
  · rintro rfl
    rw [dif_pos shortest]

theorem BitString.read?_eq_some_iff {content : Octets} {b : BitString} :
    BitString.read? content = some b ↔ b.unused :: b.octets = content := by
  obtain ⟨unused, octets, regular⟩ := b
  constructor
  · intro h
    cases content with
    | nil => exact nomatch h
    | cons first rest =>
      simp only [read?, Option.dite_none_right_eq_some, Option.some.injEq, BitString.mk.injEq] at h
      obtain ⟨-, rfl, rfl⟩ := h
      rfl
  · rintro rfl
    rw [read?, dif_pos regular]

/-- Octets without unused bits behind them are always a BIT STRING. -/
theorem BitString.isRegular_zero (octets : Octets) : isRegular 0 octets = true := by
  simp [isRegular, Nat.mod_one]

theorem Oid.read?_eq_some_iff {content : Octets} {o : Oid} :
    Oid.read? content = some o ↔
      o.octets = content ∧ ∃ last, content.getLast? = some last ∧ last < 0x80 := by
  obtain ⟨octets⟩ := o
  rw [read?]
  cases content.getLast? with
  | none => exact ⟨fun h ↦ (nomatch h), fun ⟨_, _, h, _⟩ ↦ (nomatch h)⟩
  | some last =>
    simp only [Option.ite_none_right_eq_some, Option.some.injEq, Oid.mk.injEq, exists_eq_left']
    exact ⟨fun h ↦ ⟨h.2.symm, h.1⟩, fun h ↦ ⟨h.2, h.1.symm⟩⟩

/-- **An ASCII text is read exactly from its octets.** -/
theorem Sequence.asciiText?_eq_some_iff {content : Octets} {text : String} :
    Sequence.asciiText? content = some text ↔
      (∀ c ∈ text.toList, c.toNat < 0x80) ∧ content = Octets.ofString text := by
  have hall : content.all (· < 0x80) = true ↔ ∀ b ∈ content, b < 0x80 := by simp
  simp only [asciiText?, Option.ite_none_right_eq_some, Option.some.injEq, hall]
  refine ⟨fun h ↦ ?_, fun h ↦ ?_⟩
  · obtain ⟨hascii, rfl⟩ := h
    exact ⟨Octets.toNat_lt_of_mem_ascii hascii, (Octets.ofString_ascii hascii).symm⟩
  · obtain ⟨hascii, rfl⟩ := h
    exact ⟨Octets.lt_of_mem_ofString hascii, Octets.ascii_ofString hascii⟩

end Der

end Rpki
