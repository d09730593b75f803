import Rpki.Proofs.Validity

/-!
# Which verdict a time gets

`Verdict.Holds` says what the three verdicts mean: a second is before a window, after it, or
neither.  Of a window that does not end before it starts exactly one of them holds, and
`checkValidity_eq_iff` says that it is the one that is returned, for the second that the time asked
about is in.  Before that come the two errors.  Which of the three cases it is depends on the two
contents only.

The ends of a window between GeneralizedTimes are whole seconds, and so it has both of them.  A
window between any two times need not have its start (`ValidityWindow.check_of_between`): the time
asked about loses its fraction and the start does not, so a start inside a second is after all times
of that second.
-/

set_option autoImplicit false

namespace Rpki

/-! ## Verdicts -/

namespace Verdict

/-- What a verdict says of a second and the window from `a` to `b`. -/
def Holds (a b second : Time) : Verdict → Prop
  | tooEarly => second < a
  | stale => b < second
  | current => a ≤ second ∧ second ≤ b

end Verdict

namespace ValidityWindow

theorem holds_check (w : ValidityWindow) (now : Time) :
    (w.check now).Holds w.thisUpdate w.nextUpdate now.truncated := by
  rw [check]
  split
  · next hearly => exact hearly
  split
  · next hover => exact hover
  · next hstart hend => exact ⟨hstart, hend⟩

/-- **Exactly one verdict holds**, unless the window ends before it starts. -/
theorem holds_iff (w : ValidityWindow) (hw : w.thisUpdate ≤ w.nextUpdate) {now : Time}
    {v : Verdict} : v.Holds w.thisUpdate w.nextUpdate now.truncated ↔ v = w.check now := by
  refine ⟨fun h ↦ ?_, fun h ↦ h ▸ holds_check w now⟩
  cases v with
  | tooEarly => exact (check_eq_tooEarly h).symm
  | stale => exact (check_eq_stale hw h).symm
  | current => exact (check_eq_current h.1 h.2).symm

end ValidityWindow

/-! ## The four outcomes -/

section Outcomes

open GeneralizedTime

variable {thisUpdate nextUpdate : Octets} {a b now : Time}

theorem checkValidity_of_denotes (hthis : Denotes thisUpdate a) (hnext : Denotes nextUpdate b) :
    checkValidity thisUpdate nextUpdate now = (ValidityWindow.ofTimes a b).map (·.check now) := by
  rw [checkValidity, ValidityWindow.ofGeneralizedTimes, denotes_iff.mp hthis, denotes_iff.mp hnext]

theorem checkValidity_eq_interval_iff (hthis : Denotes thisUpdate a)
    (hnext : Denotes nextUpdate b) :
    checkValidity thisUpdate nextUpdate now = .error .interval ↔ b < a := by
  rw [checkValidity_of_denotes hthis hnext, ValidityWindow.ofTimes]
  split
  · next hlt => exact iff_of_true rfl hlt
  · next hle => simp only [Except.map, reduceCtorEq, hle]

theorem checkValidity_eq_ok_iff (hthis : Denotes thisUpdate a) (hnext : Denotes nextUpdate b)
    {v : Verdict} :
    checkValidity thisUpdate nextUpdate now = .ok v ↔
      a ≤ b ∧ v = (⟨a, b⟩ : ValidityWindow).check now := by
  rw [checkValidity_of_denotes hthis hnext, ValidityWindow.ofTimes]
  split
  · next hlt =>
    have hle : ¬ a ≤ b := not_not_intro hlt
    simp only [Except.map, reduceCtorEq, hle, false_and]
  · next hle =>
    refine ⟨fun h ↦ ⟨hle, (Except.ok.inj h).symm⟩, fun h ↦ ?_⟩
    rw [h.2]
    rfl

theorem checkValidity_ne_format (hthis : Denotes thisUpdate a) (hnext : Denotes nextUpdate b) :
    checkValidity thisUpdate nextUpdate now ≠ .error .format := by
  rw [checkValidity_of_denotes hthis hnext, ValidityWindow.ofTimes]
  split <;> simp [Except.map]

/-- Unless the format is wrong, both contents denote times. -/
theorem exists_denotes_of_ne_format
    (h : checkValidity thisUpdate nextUpdate now ≠ .error .format) :
    ∃ a b, Denotes thisUpdate a ∧ Denotes nextUpdate b := by
  rw [checkValidity, ValidityWindow.ofGeneralizedTimes] at h
  split at h
  · next a b hthis hnext => exact ⟨a, b, denotes_iff.mpr hthis, denotes_iff.mpr hnext⟩
  · exact absurd rfl h

/-- **The four outcomes**, and when each of them is returned.  It is the error for the format if one
of the contents is not the text of a date and time of day that exists.  It is the error for the
interval if both are and the second denotes the earlier time, whatever `now` is.  And it is a
verdict if they are in order and it is the one verdict that holds of the second that `now` is in. -/
theorem checkValidity_eq_iff (thisUpdate nextUpdate : Octets) (now : Time) :
    (checkValidity thisUpdate nextUpdate now = .error .format ↔
        ¬ (IsText thisUpdate ∧ IsText nextUpdate)) ∧
      (checkValidity thisUpdate nextUpdate now = .error .interval ↔
        ∃ a b, Denotes thisUpdate a ∧ Denotes nextUpdate b ∧ b < a) ∧
      ∀ v, checkValidity thisUpdate nextUpdate now = .ok v ↔
        ∃ a b second, Denotes thisUpdate a ∧ Denotes nextUpdate b ∧ a ≤ b ∧
          second.IsSecondOf now ∧ ∀ v' : Verdict, v'.Holds a b second ↔ v' = v := by
  refine ⟨⟨fun h htext ↦ ?_, fun h ↦ ?_⟩, ⟨fun h ↦ ?_, fun h ↦ ?_⟩,
    fun v ↦ ⟨fun h ↦ ?_, fun h ↦ ?_⟩⟩
  · obtain ⟨a, hthis⟩ := isText_iff.mp htext.1
    obtain ⟨b, hnext⟩ := isText_iff.mp htext.2
    exact checkValidity_ne_format hthis hnext h
  · refine Decidable.byContradiction fun hne ↦ ?_
    obtain ⟨a, b, hthis, hnext⟩ := exists_denotes_of_ne_format hne
    exact h ⟨isText_iff.mpr ⟨a, hthis⟩, isText_iff.mpr ⟨b, hnext⟩⟩
  · have hne : checkValidity thisUpdate nextUpdate now ≠ .error .format := by simp [h]
    obtain ⟨a, b, hthis, hnext⟩ := exists_denotes_of_ne_format hne
    exact ⟨a, b, hthis, hnext, (checkValidity_eq_interval_iff hthis hnext).mp h⟩
  · obtain ⟨a, b, hthis, hnext, hlt⟩ := h
    exact (checkValidity_eq_interval_iff hthis hnext).mpr hlt
  · have hne : checkValidity thisUpdate nextUpdate now ≠ .error .format := by simp [h]
    obtain ⟨a, b, hthis, hnext⟩ := exists_denotes_of_ne_format hne
    obtain ⟨hle, rfl⟩ := (checkValidity_eq_ok_iff hthis hnext).mp h
    exact ⟨a, b, now.truncated, hthis, hnext, hle, Time.isSecondOf_iff.mpr rfl,
      fun _ ↦ ValidityWindow.holds_iff ⟨a, b⟩ hle⟩
  · obtain ⟨a, b, second, hthis, hnext, hle, hsecond, honly⟩ := h
    obtain rfl := Time.isSecondOf_iff.mp hsecond
    have hholds := ValidityWindow.holds_check ⟨a, b⟩ now
    exact (checkValidity_eq_ok_iff hthis hnext).mpr ⟨hle, ((honly _).mp hholds).symm⟩

end Outcomes

/-! ## The ends -/

namespace ValidityWindow

theorem check_eq_tooEarly_iff {w : ValidityWindow} {now : Time} :
    w.check now = .tooEarly ↔ now.truncated < w.thisUpdate := by
  refine ⟨fun h ↦ ?_, check_eq_tooEarly⟩
  have hholds := holds_check w now
  rwa [h] at hholds

theorem check_ne_stale {w : ValidityWindow} {now : Time} (h : now ≤ w.nextUpdate) :
    w.check now ≠ .stale :=
  fun hstale ↦ h (Time.lt_of_lt_of_le (lt_of_check_eq_stale hstale) now.truncated_le)

/-- **A window need not have its start.**  Of the times from the start to the end of a window none
is stale, and the only ones that are too early are those in the same second as a start that is not
on a second.  So all of them are current exactly if the start is on a second. -/
theorem check_of_between {a b : Time} {w : ValidityWindow} (hw : ofTimes a b = .ok w) :
    (∀ now, a ≤ now → now ≤ b → w.check now ≠ .stale ∧
        (w.check now = .tooEarly ↔ ¬ a.IsOnSecond ∧ now.truncated = a.truncated)) ∧
      ((∀ now, a ≤ now → now ≤ b → w.check now = .current) ↔ a.IsOnSecond) := by
  obtain ⟨hle, rfl, rfl⟩ := ofTimes_eq_ok_iff.mp hw
  have hbetween (now : Time) (hstart : w.thisUpdate ≤ now) (hend : now ≤ w.nextUpdate) :
      w.check now ≠ .stale ∧ (w.check now = .tooEarly ↔
        ¬ w.thisUpdate.IsOnSecond ∧ now.truncated = w.thisUpdate.truncated) :=
    ⟨check_ne_stale hend, check_eq_tooEarly_iff.trans (Time.truncated_lt_iff hstart)⟩
  refine ⟨hbetween, fun hall ↦ ?_, fun hon now hstart hend ↦ ?_⟩
  · -- The start itself is current only if it is on a second.
    refine Decidable.byContradiction fun hon ↦ ?_
    have hearly := (hbetween w.thisUpdate (Time.le_refl _) hle).2.mpr ⟨hon, rfl⟩
    rw [hall w.thisUpdate (Time.le_refl _) hle] at hearly
    exact nomatch hearly
  · obtain ⟨hstale, hearly⟩ := hbetween now hstart hend
    cases hcheck : w.check now with
    | tooEarly => exact absurd hon (hearly.mp hcheck).1
    | stale => exact absurd hcheck hstale
    | current => rfl

/-- A day that starts half a second after a whole one, of which the first half second is too
early. -/
theorem check_of_between_half_second :
    let a : Time := ⟨1631880000, 500000000, by decide, by decide, by decide⟩
    let b : Time := ⟨1631966400, 0, by decide, by decide, by decide⟩
    let now : Time := ⟨1631880000, 999999999, by decide, by decide, by decide⟩
    let w : ValidityWindow := ⟨a, b⟩
    ofTimes a b = .ok w ∧ a ≤ now ∧ now ≤ b ∧ w.check now = .tooEarly ∧
      ¬ ∀ now, a ≤ now → now ≤ b → w.check now = .current := by
  intro a b now w
  have hw : ofTimes a b = .ok w := by decide +kernel +zetaReduce
  have hstart : a ≤ now := by decide +kernel +zetaReduce
  have hend : now ≤ b := by decide +kernel +zetaReduce
  have hon : ¬ a.IsOnSecond := by decide +kernel +zetaReduce
  have hsecond : now.truncated = a.truncated := by decide +kernel +zetaReduce
  have hboth := check_of_between hw
  exact ⟨hw, hstart, hend, (hboth.1 now hstart hend).2.mpr ⟨hon, hsecond⟩,
    fun hall ↦ hon (hboth.2.mp hall)⟩

/-- **The start of a window need not be in it.**  With half a second behind it the start is too
early for its own window. -/
theorem start_too_early :
    let a : Time := ⟨1631880000, 500000000, by decide, by decide, by decide⟩
    let b : Time := ⟨1631966400, 0, by decide, by decide, by decide⟩
    ¬ ∀ w, ofTimes a b = .ok w → ∀ now, a ≤ now → now ≤ b → w.check now = .current := by
  intro a b hall
  have hcurrent : (⟨a, b⟩ : ValidityWindow).check a = .current :=
    hall ⟨a, b⟩ (by decide +kernel +zetaReduce) a (by decide +kernel +zetaReduce)
      (by decide +kernel +zetaReduce)
  have hearly : (⟨a, b⟩ : ValidityWindow).check a = .tooEarly := by decide +kernel +zetaReduce
  rw [hearly] at hcurrent
  exact nomatch hcurrent

end ValidityWindow

end Rpki
