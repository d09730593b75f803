import Rpki.Proofs.Calendar

/-!
# Earlier dates are earlier days

Dates are compared field by field, the year first, and so are dates with a time of day.  Counting
days and seconds does not look at the fields in this order: it adds them up, with months and years
of different lengths.  Still no field can make up for an earlier one, since the days of a month end
before the next month starts, and the months of a year before the next year.

* `Date.dayNumber_lt_dayNumber`: a valid date that is earlier field by field is an earlier day.
* `CivilTime.toSeconds_lt_iff`: of valid dates with a time of day, the ones that are earlier field
  by field are those with fewer seconds.
-/

set_option autoImplicit false

namespace Rpki

namespace Calendar

/-- The first `k` lengths and the one behind them are among the first `j`. -/
theorem take_sum_add_le_take_sum {lengths : List Nat} {k j : Nat} (hkj : k < j)
    (hk : k < lengths.length) : (lengths.take k).sum + lengths[k] ≤ (lengths.take j).sum := by
  have hk' : k < (lengths.take j).length := by
    rw [List.length_take]
    omega
  have hle := take_sum_add_le hk'
  rwa [List.take_take, Nat.min_eq_left (Nat.le_of_lt hkj), List.getElem_take] at hle

end Calendar

open Calendar

/-! ## Dates -/

namespace Date

/-- Earlier by the year, within one year by the month, and within one month by the day. -/
protected def lt (d e : Date) : Prop :=
  d.year < e.year ∨
    (d.year = e.year ∧ (d.month < e.month ∨ (d.month = e.month ∧ d.day < e.day)))

instance : LT Date := ⟨Date.lt⟩

instance (d e : Date) : Decidable (d < e) :=
  inferInstanceAs (Decidable (d.year < e.year ∨
    (d.year = e.year ∧ (d.month < e.month ∨ (d.month = e.month ∧ d.day < e.day)))))

protected theorem lt_iff {d e : Date} :
    d < e ↔ d.year < e.year ∨
      (d.year = e.year ∧ (d.month < e.month ∨ (d.month = e.month ∧ d.day < e.day))) :=
  Iff.rfl

protected theorem ext_iff {d e : Date} :
    d = e ↔ d.year = e.year ∧ d.month = e.month ∧ d.day = e.day := by
  rw [← Date.mk.injEq]

protected theorem lt_irrefl (d : Date) : ¬ d < d := by
  rw [Date.lt_iff]
  omega

protected theorem lt_trichotomy (d e : Date) : d < e ∨ d = e ∨ e < d := by
  rw [Date.lt_iff, Date.lt_iff, Date.ext_iff]
  omega

/-- A month ends before any later month of its year starts. -/
theorem Valid.daysBeforeMonth_add_day_le {d : Date} (h : d.Valid) {month : Nat}
    (hlt : d.month < month) :
    daysBeforeMonth d.year d.month + d.day ≤ daysBeforeMonth d.year month := by
  obtain ⟨hk, hday⟩ := h.month_lt
  have hstart := h.1
  have hsum := take_sum_add_le_take_sum (show d.month - 1 < month - 1 by omega) hk
  rw [daysBeforeMonth_eq_sum, daysBeforeMonth_eq_sum]
  omega

/-- **A date that is earlier field by field is an earlier day.** -/
theorem dayNumber_lt_dayNumber {d e : Date} (hd : d.Valid) (he : e.Valid) (h : d < e) :
    d.dayNumber < e.dayNumber := by
  rcases h with hyear | ⟨hyear, hmonth | ⟨hmonth, hday⟩⟩
  · calc d.dayNumber < daysBeforeYear (d.year + 1) := hd.dayNumber_bounds.2
      _ ≤ daysBeforeYear e.year := daysBeforeYear_le (Int.add_one_le_of_lt hyear)
      _ ≤ e.dayNumber := he.dayNumber_bounds.1
  · have hle := hd.daysBeforeMonth_add_day_le hmonth
    have hpos : 1 ≤ e.day := he.2.2.1
    rw [dayNumber, dayNumber, ← hyear]
    omega
  · rw [dayNumber, dayNumber, hyear, hmonth]
    omega

end Date

/-! ## Dates with a time of day -/

namespace CivilTime

/-- Earlier by the date, within one day by the hour, and so on. -/
protected def lt (c d : CivilTime) : Prop :=
  c.toDate < d.toDate ∨
    (c.toDate = d.toDate ∧ (c.hour < d.hour ∨
      (c.hour = d.hour ∧ (c.minute < d.minute ∨ (c.minute = d.minute ∧ c.second < d.second)))))

instance : LT CivilTime := ⟨CivilTime.lt⟩

instance (c d : CivilTime) : Decidable (c < d) :=
  inferInstanceAs (Decidable (c.toDate < d.toDate ∨
    (c.toDate = d.toDate ∧ (c.hour < d.hour ∨
      (c.hour = d.hour ∧ (c.minute < d.minute ∨ (c.minute = d.minute ∧ c.second < d.second)))))))

protected theorem lt_iff {c d : CivilTime} :
    c < d ↔ c.toDate < d.toDate ∨
      (c.toDate = d.toDate ∧ (c.hour < d.hour ∨
        (c.hour = d.hour ∧
          (c.minute < d.minute ∨ (c.minute = d.minute ∧ c.second < d.second))))) :=
  Iff.rfl

protected theorem ext_iff {c d : CivilTime} :
    c = d ↔ c.toDate = d.toDate ∧ c.hour = d.hour ∧ c.minute = d.minute ∧ c.second = d.second := by
  rw [← CivilTime.mk.injEq]

protected theorem lt_trichotomy (c d : CivilTime) : c < d ∨ c = d ∨ d < c := by
  rw [CivilTime.lt_iff, CivilTime.lt_iff, CivilTime.ext_iff]
  rcases Date.lt_trichotomy c.toDate d.toDate with hlt | heq | hlt
  · exact .inl (.inl hlt)
  · simp only [heq, Date.lt_irrefl, false_or, true_and]
    omega
  · exact .inr (.inr (.inl hlt))

theorem toSeconds_lt_toSeconds {c d : CivilTime} (hc : c.Valid) (hd : d.Valid) (h : c < d) :
    c.toSeconds < d.toSeconds := by
  obtain ⟨hcdate, hchour, hcminute, hcsecond⟩ := hc
  obtain ⟨hddate, hdhour, hdminute, hdsecond⟩ := hd
  rw [toSeconds, toSeconds]
  rcases h with hdate | ⟨hdate, hclock⟩
  · -- A whole day is more than any time of day can make up for.
    have hday := Date.dayNumber_lt_dayNumber hcdate hddate hdate
    omega
  · rw [hdate]
    omega

/-- **The order of the fields is the order of the seconds.** -/
theorem toSeconds_lt_iff {c d : CivilTime} (hc : c.Valid) (hd : d.Valid) :
    c.toSeconds < d.toSeconds ↔ c < d := by
  refine ⟨fun h ↦ ?_, toSeconds_lt_toSeconds hc hd⟩
  rcases CivilTime.lt_trichotomy c d with hlt | heq | hlt
  · exact hlt
  · rw [heq] at h
    exact absurd h (Int.lt_irrefl _)
  · have hback := toSeconds_lt_toSeconds hd hc hlt
    exact absurd h (Int.lt_asymm hback)

end CivilTime

end Rpki
