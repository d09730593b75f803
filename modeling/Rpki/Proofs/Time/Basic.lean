import Rpki.Time.Basic
import Rpki.Proofs.Calendar

/-!
# Whole seconds

The formats that carry times carry whole seconds, so what they give back is a time without nanos.
`Time.wholeSecond` is what is left of any time, and it is the truncated time unless the time is in a
leap second, which being truncated does not leave.

What truncating leaves is the second that a time is in, if leap seconds count as seconds
(`Time.isSecondOf_iff`).
-/

set_option autoImplicit false

namespace Rpki

namespace Time

theorem eq_of_parts {a b : Time} (hs : a.seconds = b.seconds) (hn : a.nanos = b.nanos) : a = b := by
  obtain ⟨seconds, nanos, _, _, _⟩ := a
  obtain ⟨seconds', nanos', _, _, _⟩ := b
  dsimp only at hs hn
  subst hs hn
  rfl

protected theorem lt_iff {a b : Time} :
    a < b ↔ a.seconds < b.seconds ∨ (a.seconds = b.seconds ∧ a.nanos < b.nanos) :=
  Iff.rfl

protected theorem lt_trans {a b c : Time} (hab : a < b) (hbc : b < c) : a < c := by
  rcases hab with hab | ⟨hab, hnab⟩ <;> rcases hbc with hbc | ⟨hbc, hnbc⟩
  · exact .inl (Int.lt_trans hab hbc)
  · exact .inl (hbc ▸ hab)
  · exact .inl (hab ▸ hbc)
  · exact .inr ⟨hab.trans hbc, Nat.lt_trans hnab hnbc⟩

theorem ofParts?_eq_some_iff {seconds : Int} {nanos : Nat} {t : Time} :
    ofParts? seconds nanos = some t ↔ t.seconds = seconds ∧ t.nanos = nanos := by
  rw [ofParts?]
  refine ⟨fun h ↦ ?_, fun h ↦ ?_⟩
  · simp only [Option.dite_none_right_eq_some, Option.some.injEq] at h
    obtain ⟨_, rfl⟩ := h
    exact ⟨rfl, rfl⟩
  · obtain ⟨rfl, rfl⟩ := h
    rw [dif_pos ⟨t.first_le, t.le_last, t.nanos_lt⟩]

theorem ofSeconds?_eq_some_iff {seconds : Int} {t : Time} :
    ofSeconds? seconds = some t ↔ t.seconds = seconds ∧ t.nanos = 0 :=
  ofParts?_eq_some_iff

/-- The whole seconds are the times without nanos. -/
theorem wholeSecond_eq_self_iff {t : Time} : t.wholeSecond = t ↔ t.nanos = 0 := by
  refine ⟨fun h ↦ ?_, fun h ↦ eq_of_parts rfl h.symm⟩
  rw [← h]
  rfl

/-- Truncating a time leaves its whole second exactly if it is not in a leap second. -/
theorem truncated_eq_wholeSecond_iff {t : Time} :
    t.truncated = t.wholeSecond ↔ t.nanos < 1000000000 := by
  refine ⟨fun h ↦ ?_, fun h ↦ eq_of_parts rfl ?_⟩
  · have hnanos : t.nanos / 1000000000 * 1000000000 = 0 := congrArg nanos h
    omega
  · simp only [truncated, wholeSecond]
    omega

/-- The order of times is the lexicographic order of seconds and fraction. -/
protected theorem le_iff {a b : Time} :
    a ≤ b ↔ a.seconds < b.seconds ∨ (a.seconds = b.seconds ∧ a.nanos ≤ b.nanos) := by
  have hnot : a ≤ b ↔ ¬ b < a := Iff.rfl
  rw [hnot, Time.lt_iff]
  omega

protected theorem lt_of_le_of_lt {a b c : Time} (hab : a ≤ b) (hbc : b < c) : a < c := by
  rw [Time.le_iff] at hab
  rw [Time.lt_iff] at hbc ⊢
  omega

protected theorem lt_of_lt_of_le {a b c : Time} (hab : a < b) (hbc : b ≤ c) : a < c := by
  rw [Time.le_iff] at hbc
  rw [Time.lt_iff] at hab ⊢
  omega

protected theorem le_antisymm {a b : Time} (hab : a ≤ b) (hba : b ≤ a) : a = b := by
  rw [Time.le_iff] at hab hba
  exact eq_of_parts (by omega) (by omega)

protected theorem le_refl (a : Time) : a ≤ a := Time.le_iff.mpr (.inr ⟨rfl, Nat.le_refl _⟩)

protected theorem le_of_lt {a b : Time} (h : a < b) : a ≤ b :=
  Time.le_iff.mpr (h.imp_right fun hnanos ↦ ⟨hnanos.1, Nat.le_of_lt hnanos.2⟩)

/-- **Truncating keeps the order**, within a leap second too, which stays behind the ordinary second
before it. -/
theorem truncated_le_truncated {a b : Time} (h : a ≤ b) : a.truncated ≤ b.truncated := by
  rw [Time.le_iff] at h ⊢
  rcases h with hlt | ⟨heq, hle⟩
  · exact .inl hlt
  · exact .inr ⟨heq, Nat.mul_le_mul_right _ (Nat.div_le_div_right hle)⟩

/-- Truncating does not change the second a time is in. -/
theorem seconds_le_of_truncated_le {a b : Time} (h : a.truncated ≤ b.truncated) :
    a.seconds ≤ b.seconds :=
  Int.not_lt.mp fun hlt ↦ h (Or.inl hlt)

/-- Whole seconds are in order if the seconds are. -/
theorem wholeSecond_le_wholeSecond {a b : Time} (h : a.seconds ≤ b.seconds) :
    a.wholeSecond ≤ b.wholeSecond := by
  rintro (hlt | ⟨-, hlt⟩)
  · exact absurd h (Int.not_le.mpr hlt)
  · exact Nat.lt_irrefl 0 hlt

/-! ## The second a time is in -/

/-- The time is on a second, an ordinary or a leap second: nothing has passed of it. -/
def IsOnSecond (t : Time) : Prop := t.nanos % 1000000000 = 0

instance (t : Time) : Decidable t.IsOnSecond := inferInstanceAs (Decidable (_ = _))

/-- `second` is the second that `t` is in: the last time on a second that is not after it. -/
structure IsSecondOf (second t : Time) : Prop where
  isOnSecond : second.IsOnSecond
  le : second ≤ t
  le_of_isOnSecond : ∀ other : Time, other.IsOnSecond → other ≤ t → other ≤ second

theorem truncated_le (t : Time) : t.truncated ≤ t :=
  Time.le_iff.mpr (.inr ⟨rfl, Nat.div_mul_le_self _ _⟩)

theorem isOnSecond_truncated (t : Time) : t.truncated.IsOnSecond := Nat.mul_mod_left _ _

theorem truncated_eq_self_iff {t : Time} : t.truncated = t ↔ t.IsOnSecond := by
  refine ⟨fun h ↦ h ▸ t.isOnSecond_truncated, fun h ↦ eq_of_parts rfl ?_⟩
  exact Nat.div_mul_cancel (Nat.dvd_of_mod_eq_zero h)

theorem le_truncated_of_isOnSecond {second t : Time} (hon : second.IsOnSecond) (hle : second ≤ t) :
    second ≤ t.truncated := by
  rw [← truncated_eq_self_iff.mpr hon]
  exact truncated_le_truncated hle

/-- **Truncating a time leaves the second it is in**, before 1970 too. -/
theorem isSecondOf_iff {second t : Time} : second.IsSecondOf t ↔ second = t.truncated := by
  refine ⟨fun h ↦ ?_, fun h ↦ ?_⟩
  · exact Time.le_antisymm (le_truncated_of_isOnSecond h.isOnSecond h.le)
      (h.le_of_isOnSecond t.truncated t.isOnSecond_truncated t.truncated_le)
  · rw [h]
    exact ⟨t.isOnSecond_truncated, t.truncated_le, fun _ ↦ le_truncated_of_isOnSecond⟩

/-- A later time is truncated to an earlier one only inside one second. -/
theorem truncated_lt_iff {t later : Time} (h : t ≤ later) :
    later.truncated < t ↔ ¬ t.IsOnSecond ∧ later.truncated = t.truncated := by
  refine ⟨fun hlt ↦ ⟨fun hon ↦ ?_, ?_⟩, fun hsecond ↦ ?_⟩
  · exact le_truncated_of_isOnSecond hon h hlt
  · exact Time.le_antisymm
      (le_truncated_of_isOnSecond later.isOnSecond_truncated (Time.le_of_lt hlt))
      (truncated_le_truncated h)
  · obtain ⟨hon, heq⟩ := hsecond
    rw [heq]
    refine Decidable.byContradiction fun hle ↦ hon (truncated_eq_self_iff.mp ?_)
    exact Time.le_antisymm t.truncated_le hle

/-! ## Date and time of day -/

theorem valid_civil (t : Time) : t.civil.Valid := CivilTime.valid_ofSeconds t.seconds

theorem toSeconds_civil (t : Time) : t.civil.toSeconds = t.seconds :=
  CivilTime.toSeconds_ofSeconds t.seconds

/-- The date and time of day of a time are those of its whole second. -/
theorem ofCivil?_civil (t : Time) : ofCivil? t.civil = some t.wholeSecond := by
  rw [ofCivil?, if_pos t.valid_civil, ofSeconds?_eq_some_iff, toSeconds_civil]
  exact ⟨rfl, rfl⟩

/-- The years of four digits are inside the range of times. -/
theorem exists_ofCivil?_eq_some {c : CivilTime} (hvalid : c.Valid)
    (hyear : 0 ≤ c.year ∧ c.year ≤ 9999) : ∃ t, ofCivil? c = some t := by
  have hday := hvalid.1.dayNumber_bounds
  have hfirst := Calendar.daysBeforeYear_le hyear.1
  have hlast := Calendar.daysBeforeYear_le (Int.add_le_add_right hyear.2 1)
  have hzero : Calendar.daysBeforeYear 0 = 0 := by decide
  have hend : Calendar.daysBeforeYear (9999 + 1) = 3652425 := by decide
  obtain ⟨hhour, hminute, hsecond⟩ := hvalid.2
  have hrange : -8334601228800 ≤ c.toSeconds ∧ c.toSeconds ≤ 8210266876799 := by
    rw [CivilTime.toSeconds, CivilTime.epoch]
    omega
  refine ⟨⟨c.toSeconds, 0, hrange.1, hrange.2, by omega⟩, ?_⟩
  rw [ofCivil?, if_pos hvalid, ofSeconds?_eq_some_iff]
  exact ⟨rfl, rfl⟩

end Time

end Rpki
