import Mathlib.Algebra.Ring.Nat
import Rpki.Calendar

/-!
# Dates and day numbers are inverse

The calendar counts days in one direction by adding up years and months, and in the other by a
division that is off by at most one year and a walk along the months.  Here the two are shown to
undo each other, for every year.

* `Date.ofDayNumber_dayNumber`: a valid date is the date of its day.
* `Date.valid_ofDayNumber` and `Date.dayNumber_ofDayNumber`: every day has a valid date, and is the
  day of it.
* `CivilTime.ofSeconds_toSeconds`, `CivilTime.valid_ofSeconds` and `CivilTime.toSeconds_ofSeconds`:
  the same for seconds, with the time of day.
-/

set_option autoImplicit false

namespace Rpki

namespace Calendar

/-! ## Years -/

theorem isLeap_iff (year : Int) :
    isLeap year = true ↔ year % 4 = 0 ∧ (year % 100 ≠ 0 ∨ year % 400 = 0) := by
  simp [isLeap]

theorem sum_monthLengths (leap : Bool) : (monthLengths leap).sum = if leap then 366 else 365 := by
  cases leap <;> rfl

/-- A year has as many days as its months together. -/
theorem daysBeforeYear_succ (year : Int) :
    daysBeforeYear (year + 1) = daysBeforeYear year + (monthLengths (isLeap year)).sum := by
  rw [sum_monthLengths]
  unfold daysBeforeYear
  have hleap := isLeap_iff year
  split
  · next h =>
    rw [h] at hleap
    have hrule := hleap.mp rfl
    omega
  · next h =>
    rw [hleap] at h
    omega

theorem daysBeforeYear_lt {y z : Int} (h : y < z) : daysBeforeYear y < daysBeforeYear z := by
  unfold daysBeforeYear
  omega

theorem daysBeforeYear_le {y z : Int} (h : y ≤ z) : daysBeforeYear y ≤ daysBeforeYear z := by
  rcases Int.lt_or_eq_of_le h with hlt | rfl
  · exact Int.le_of_lt (daysBeforeYear_lt hlt)
  · exact Int.le_refl _

/-- The mean length of a year is close enough: the guess is the year before, the year or the year
after. -/
theorem daysBeforeYear_guess (day : Int) :
    daysBeforeYear (400 * day / 146097 - 1) ≤ day ∧
      day < daysBeforeYear (400 * day / 146097 + 2) := by
  unfold daysBeforeYear
  omega

/-- **The year of a day starts no later and ends after it.** -/
theorem yearOf_spec (day : Int) :
    daysBeforeYear (yearOf day) ≤ day ∧ day < daysBeforeYear (yearOf day + 1) := by
  obtain ⟨hlow, hhigh⟩ := daysBeforeYear_guess day
  unfold yearOf
  dsimp only
  split
  · next h => exact ⟨hlow, by rw [Int.sub_add_cancel]; exact h⟩
  split
  · next h => exact ⟨h, by rw [Int.add_assoc]; exact hhigh⟩
  · next h1 h2 => exact ⟨Int.not_lt.mp h1, Int.not_le.mp h2⟩

/-- There is only one such year. -/
theorem yearOf_eq {day year : Int} (hle : daysBeforeYear year ≤ day)
    (hlt : day < daysBeforeYear (year + 1)) : yearOf day = year := by
  obtain ⟨hle', hlt'⟩ := yearOf_spec day
  rcases Int.lt_trichotomy (yearOf day) year with h | h | h
  · have hmono := daysBeforeYear_le (Int.add_one_le_of_lt h)
    omega
  · exact h
  · have hmono := daysBeforeYear_le (Int.add_one_le_of_lt h)
    omega

/-! ## Months -/

theorem daysBeforeMonth_eq_sum (year : Int) (month : Nat) :
    daysBeforeMonth year month = ((monthLengths (isLeap year)).take (month - 1)).sum := rfl

/-- The walk along the months ends in the month in which the days of the months before run out. -/
theorem monthAndDay_add {lengths : List Nat} {k r : Nat} (hk : k < lengths.length)
    (hr : r < lengths[k]) (month : Nat) :
    monthAndDay lengths month ((lengths.take k).sum + r) = (month + k, r + 1) := by
  induction lengths generalizing k month with
  | nil => exact absurd hk (Nat.not_lt_zero _)
  | cons length rest ih =>
    cases k with
    | zero =>
      rw [List.getElem_cons_zero] at hr
      rw [List.take_zero, List.sum_nil, Nat.zero_add, monthAndDay, if_pos hr]
      rfl
    | succ k =>
      have hge : ¬ length + (rest.take k).sum + r < length := by omega
      have hsub : length + (rest.take k).sum + r - length = (rest.take k).sum + r := by omega
      rw [List.take_succ_cons, List.sum_cons, monthAndDay, if_neg hge, hsub,
        ih (Nat.lt_of_succ_lt_succ hk) hr]
      rw [Nat.add_assoc, Nat.add_comm 1 k]

/-- Every day of a year is in one of its months. -/
theorem exists_month {lengths : List Nat} {day : Nat} (h : day < lengths.sum) :
    ∃ k r, ∃ hk : k < lengths.length, r < lengths[k] ∧ day = (lengths.take k).sum + r := by
  induction lengths generalizing day with
  | nil => exact absurd h (Nat.not_lt_zero _)
  | cons length rest ih =>
    by_cases hlt : day < length
    · exact ⟨0, day, Nat.succ_pos _, hlt, by simp⟩
    · rw [List.sum_cons] at h
      obtain ⟨k, r, hk, hr, heq⟩ := ih (show day - length < rest.sum by omega)
      exact ⟨k + 1, r, Nat.succ_lt_succ hk, hr, by rw [List.take_succ_cons, List.sum_cons]; omega⟩

theorem take_sum_add_le {lengths : List Nat} {k : Nat} (hk : k < lengths.length) :
    (lengths.take k).sum + lengths[k] ≤ lengths.sum := by
  have hsplit : lengths.sum = (lengths.take k).sum + (lengths.drop k).sum := by
    rw [← List.sum_append, List.take_append_drop]
  rw [hsplit, List.drop_eq_getElem_cons hk, List.sum_cons]
  omega

theorem length_monthLengths (leap : Bool) : (monthLengths leap).length = 12 := by
  cases leap <;> rfl

/-- No month is longer than 31 days. -/
theorem daysInMonth_le (year : Int) (month : Nat) : daysInMonth year month ≤ 31 := by
  have hall : ∀ leap, ∀ length ∈ monthLengths leap, length ≤ 31 := by decide
  rw [daysInMonth, List.getD_eq_getElem?_getD]
  cases h : (monthLengths (isLeap year))[month - 1]? with
  | none => exact Nat.zero_le 31
  | some length => exact hall _ length (List.mem_of_getElem? h)

end Calendar

open Calendar

/-! ## Dates -/

namespace Date

/-- A month that exists, counted from 0, and its length. -/
theorem Valid.month_lt {d : Date} (h : d.Valid) :
    ∃ hk : d.month - 1 < (monthLengths (isLeap d.year)).length,
      d.day ≤ (monthLengths (isLeap d.year))[d.month - 1] := by
  obtain ⟨hm, hm', -, hd⟩ := h
  have hk : d.month - 1 < (monthLengths (isLeap d.year)).length := by
    rw [length_monthLengths]
    omega
  refine ⟨hk, ?_⟩
  rwa [daysInMonth, List.getD_eq_getElem?_getD, List.getElem?_eq_getElem hk] at hd

/-- **A valid date is the date of its day.** -/
theorem ofDayNumber_dayNumber {d : Date} (h : d.Valid) : ofDayNumber d.dayNumber = d := by
  obtain ⟨hk, hday⟩ := h.month_lt
  obtain ⟨hm, -, hd, -⟩ := h
  have hbound := take_sum_add_le hk
  have hsucc := daysBeforeYear_succ d.year
  have hyear : yearOf d.dayNumber = d.year := by
    apply yearOf_eq
    · rw [dayNumber, daysBeforeMonth_eq_sum]
      omega
    · rw [dayNumber, daysBeforeMonth_eq_sum]
      omega
  have hrest : (d.dayNumber - daysBeforeYear d.year).toNat =
      ((monthLengths (isLeap d.year)).take (d.month - 1)).sum + (d.day - 1) := by
    rw [dayNumber, daysBeforeMonth_eq_sum]
    omega
  have hwalk := monthAndDay_add hk (show d.day - 1 < _ by omega) 1
  simp only [ofDayNumber, hyear, hrest, hwalk]
  obtain ⟨year, month, day⟩ := d
  rw [Date.mk.injEq]
  exact ⟨rfl, by dsimp only at hm ⊢; omega, by dsimp only at hd ⊢; omega⟩

/-- A valid date is one of the days of its year. -/
theorem Valid.dayNumber_bounds {d : Date} (h : d.Valid) :
    daysBeforeYear d.year ≤ d.dayNumber ∧ d.dayNumber < daysBeforeYear (d.year + 1) := by
  have hyear : yearOf d.dayNumber = d.year := congrArg Date.year (ofDayNumber_dayNumber h)
  rw [← hyear]
  exact yearOf_spec d.dayNumber

/-- The parts of the date of a day. -/
theorem ofDayNumber_spec (day : Int) :
    ∃ k r, ∃ hk : k < (monthLengths (isLeap (yearOf day))).length,
      r < (monthLengths (isLeap (yearOf day)))[k] ∧
      day = daysBeforeYear (yearOf day) +
        (((monthLengths (isLeap (yearOf day))).take k).sum + r : Nat) ∧
      ofDayNumber day = ⟨yearOf day, k + 1, r + 1⟩ := by
  obtain ⟨hle, hlt⟩ := yearOf_spec day
  rw [daysBeforeYear_succ] at hlt
  obtain ⟨k, r, hk, hr, heq⟩ := exists_month
    (show (day - daysBeforeYear (yearOf day)).toNat < (monthLengths (isLeap (yearOf day))).sum by
      omega)
  refine ⟨k, r, hk, hr, by omega, ?_⟩
  simp only [ofDayNumber, heq, monthAndDay_add hk hr, Nat.add_comm 1 k]

/-- **Every day has a valid date.** -/
theorem valid_ofDayNumber (day : Int) : (ofDayNumber day).Valid := by
  obtain ⟨k, r, hk, hr, -, heq⟩ := ofDayNumber_spec day
  have hlen := length_monthLengths (isLeap (yearOf day))
  rw [heq]
  refine ⟨by dsimp only; omega, by dsimp only; omega, by dsimp only; omega, ?_⟩
  rw [daysInMonth, Nat.add_sub_cancel, List.getD_eq_getElem?_getD, List.getElem?_eq_getElem hk]
  exact hr

/-- **Every day is the day of its date.** -/
theorem dayNumber_ofDayNumber (day : Int) : (ofDayNumber day).dayNumber = day := by
  obtain ⟨k, r, -, -, hday, heq⟩ := ofDayNumber_spec day
  rw [heq, dayNumber, daysBeforeMonth_eq_sum, Nat.add_sub_cancel]
  dsimp only
  omega

end Date

/-! ## Dates with a time of day -/

namespace CivilTime

theorem ofSeconds_eq {seconds : Int} {d : Date} {hour minute second : Nat}
    (hday : seconds / 86400 = d.dayNumber - epoch) (hd : d.Valid)
    (hrest : (seconds % 86400).toNat = 3600 * hour + 60 * minute + second) (hm : minute < 60)
    (hs : second < 60) : ofSeconds seconds = ⟨d, hour, minute, second⟩ := by
  have hh : (3600 * hour + 60 * minute + second) / 3600 = hour := by omega
  have hm' : (3600 * hour + 60 * minute + second) / 60 % 60 = minute := by omega
  have hs' : (3600 * hour + 60 * minute + second) % 60 = second := by omega
  simp only [ofSeconds, hday, hrest, hh, hm', hs', Int.sub_add_cancel,
    Date.ofDayNumber_dayNumber hd]

/-- **A valid date with a time of day is the one of its second.** -/
theorem ofSeconds_toSeconds {c : CivilTime} (h : c.Valid) : ofSeconds c.toSeconds = c := by
  obtain ⟨hd, hh, hm, hs⟩ := h
  have hrest : (3600 * c.hour + 60 * c.minute + c.second : Nat) < 86400 := by omega
  refine ofSeconds_eq ?_ hd ?_ hm hs
  · rw [toSeconds]
    omega
  · rw [toSeconds]
    omega

/-- **Every second has a valid date with a time of day.** -/
theorem valid_ofSeconds (seconds : Int) : (ofSeconds seconds).Valid := by
  refine ⟨Date.valid_ofDayNumber _, ?_, ?_, ?_⟩
  · dsimp only [ofSeconds]
    omega
  · dsimp only [ofSeconds]
    omega
  · dsimp only [ofSeconds]
    omega

/-- **Every second is the one of its date and time of day.** -/
theorem toSeconds_ofSeconds (seconds : Int) : (ofSeconds seconds).toSeconds = seconds := by
  simp only [toSeconds, ofSeconds, Date.dayNumber_ofDayNumber]
  omega

end CivilTime

end Rpki
