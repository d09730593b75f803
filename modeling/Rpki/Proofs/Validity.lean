import Rpki.Proofs.Time.Generalized
import Rpki.Validity

/-!
# Windows from times

The two ways in which a window is made, from times and from the content of GeneralizedTimes, and
which windows come out: those with their ends in order, and of these the ones that have whole
seconds in the years of four digits, which `ValidityWindow.IsGeneralized` is short for.

Where a time lies with regard to a window is told by two comparisons, of which the first one that
holds decides.  If the ends of the window are in order, not both can hold.  As time goes on the
verdict can only go forward (`ValidityWindow.stage_check_le`).
-/

set_option autoImplicit false

namespace Rpki

/-- The place of a verdict in the order in which they come. -/
def Verdict.stage : Verdict → Nat
  | tooEarly => 0
  | current => 1
  | stale => 2

namespace ValidityWindow

theorem ofTimes_eq_ok_iff {thisUpdate nextUpdate : Time} {w : ValidityWindow} :
    ofTimes thisUpdate nextUpdate = .ok w ↔
      w.thisUpdate ≤ w.nextUpdate ∧ w.thisUpdate = thisUpdate ∧ w.nextUpdate = nextUpdate := by
  rw [ofTimes]
  split
  · next hlt =>
    constructor
    · exact fun h ↦ nomatch h
    · rintro ⟨hle, rfl, rfl⟩
      exact absurd hlt hle
  · next hle =>
    refine ⟨fun h ↦ ?_, fun h ↦ ?_⟩
    · obtain rfl := Except.ok.inj h
      exact ⟨hle, rfl, rfl⟩
    · obtain ⟨-, rfl, rfl⟩ := h
      rfl

/-- A window between GeneralizedTimes. -/
structure IsGeneralized (w : ValidityWindow) : Prop where
  /-- The start is in a year of four digits. -/
  thisYear : 0 ≤ w.thisUpdate.civil.year ∧ w.thisUpdate.civil.year ≤ 9999
  /-- The end is in a year of four digits. -/
  nextYear : 0 ≤ w.nextUpdate.civil.year ∧ w.nextUpdate.civil.year ≤ 9999
  thisNanos : w.thisUpdate.nanos = 0
  nextNanos : w.nextUpdate.nanos = 0
  le : w.thisUpdate ≤ w.nextUpdate

/-- **A window is read exactly from the contents that are written for its ends.** -/
theorem ofGeneralizedTimes_eq_ok_iff {thisUpdate nextUpdate : Octets} {w : ValidityWindow} :
    ofGeneralizedTimes thisUpdate nextUpdate = .ok w ↔
      w.IsGeneralized ∧ thisUpdate = GeneralizedTime.content w.thisUpdate ∧
        nextUpdate = GeneralizedTime.content w.nextUpdate := by
  rw [ofGeneralizedTimes]
  refine ⟨fun h ↦ ?_, fun h ↦ ?_⟩
  · split at h
    · next a b hthis hnext =>
      obtain ⟨hle, rfl, rfl⟩ := ofTimes_eq_ok_iff.mp h
      obtain ⟨hthisYear, hthisNanos, rfl⟩ := GeneralizedTime.read?_eq_some_iff.mp hthis
      obtain ⟨hnextYear, hnextNanos, rfl⟩ := GeneralizedTime.read?_eq_some_iff.mp hnext
      exact ⟨⟨hthisYear, hnextYear, hthisNanos, hnextNanos, hle⟩, rfl, rfl⟩
    · exact nomatch h
  · obtain ⟨hw, rfl, rfl⟩ := h
    have hthis := GeneralizedTime.read?_eq_some_iff.mpr ⟨hw.thisYear, hw.thisNanos, rfl⟩
    have hnext := GeneralizedTime.read?_eq_some_iff.mpr ⟨hw.nextYear, hw.nextNanos, rfl⟩
    rw [hthis, hnext]
    exact ofTimes_eq_ok_iff.mpr ⟨hw.le, rfl, rfl⟩

/-! ## Where a time lies -/

theorem check_eq_tooEarly {w : ValidityWindow} {now : Time} (h : now.truncated < w.thisUpdate) :
    w.check now = .tooEarly :=
  if_pos h

theorem check_eq_stale {w : ValidityWindow} {now : Time} (hw : w.thisUpdate ≤ w.nextUpdate)
    (h : w.nextUpdate < now.truncated) : w.check now = .stale := by
  have hstart : ¬ now.truncated < w.thisUpdate := fun hlt ↦ hw (Time.lt_trans h hlt)
  rw [check, if_neg hstart, if_pos h]

theorem check_eq_current {w : ValidityWindow} {now : Time} (hthis : w.thisUpdate ≤ now.truncated)
    (hnext : now.truncated ≤ w.nextUpdate) : w.check now = .current := by
  rw [check, if_neg hthis, if_neg hnext]

theorem lt_of_check_eq_stale {w : ValidityWindow} {now : Time} (h : w.check now = .stale) :
    w.nextUpdate < now.truncated := by
  rw [check] at h
  split at h
  · exact nomatch h
  split at h
  · next hnext => exact hnext
  · exact nomatch h

/-- **A verdict never goes back**: as time goes on a window is first too early, then current, then
stale.  This holds of windows that end before they start too. -/
theorem stage_check_le {w : ValidityWindow} {now later : Time} (h : now ≤ later) :
    (w.check now).stage ≤ (w.check later).stage := by
  have hcut := Time.truncated_le_truncated h
  have hstart (hearly : later.truncated < w.thisUpdate) : now.truncated < w.thisUpdate :=
    Time.lt_of_le_of_lt hcut hearly
  have hend (hover : w.nextUpdate < now.truncated) : w.nextUpdate < later.truncated :=
    Time.lt_of_lt_of_le hover hcut
  rw [check, check]
  by_cases hearly : now.truncated < w.thisUpdate
  · rw [if_pos hearly]
    exact Nat.zero_le _
  rw [if_neg hearly, if_neg fun h ↦ hearly (hstart h)]
  by_cases hover : w.nextUpdate < now.truncated
  · refine Nat.le_of_eq ?_
    rw [if_pos hover, if_pos (hend hover)]
  · rw [if_neg hover]
    split
    · exact Nat.le_succ 1
    · exact Nat.le_refl 1

end ValidityWindow

end Rpki
