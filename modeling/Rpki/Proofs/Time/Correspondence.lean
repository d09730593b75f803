import Rpki.Proofs.Time.Generalized
import Rpki.Time.Internet

/-!
# Times and their texts

Reading and writing a GeneralizedTime undo each other as far as the two sides have the same things
to say.  A text has no fraction, so a time that is read has none, and a time that is written loses
its own.  Every text of a date and time of day that exists is read, and it is the one that is
written again.

A leap second has no text of its own: it is written as the ordinary second before it, and that is
what is read again.  Such a time does not come from inside this library, since neither dates nor
counts of seconds nor sums lead to one (`Time.IsMade.not_isLeap`).  It has to be given, as JSON can
do.
-/

set_option autoImplicit false

namespace Rpki

/-! ## Leap seconds -/

namespace Time

/-- The time is in a leap second. -/
def IsLeap (t : Time) : Prop := 1000000000 ≤ t.nanos

instance (t : Time) : Decidable t.IsLeap := inferInstanceAs (Decidable (_ ≤ _))

/-- The times that can be made without having been given one: from a date and time of day, from a
count of seconds or from what a clock counts, and from such times by adding to them and by
truncating them. -/
inductive IsMade : Time → Prop
  | ofCivil {c : CivilTime} {t : Time} (h : ofCivil? c = some t) : IsMade t
  | ofSeconds {seconds : Int} {t : Time} (h : ofSeconds? seconds = some t) : IsMade t
  | ofNanos {nanos : Int} {t : Time} (h : ofNanos? nanos = some t) : IsMade t
  | add {t later : Time} {nanos : Int} (ht : IsMade t) (h : t.addNanos? nanos = some later) :
      IsMade later
  | truncated {t : Time} (ht : IsMade t) : IsMade t.truncated

theorem not_isLeap_of_ofNanos? {nanos : Int} {t : Time} (h : ofNanos? nanos = some t) :
    ¬ t.IsLeap := by
  have hnanos := (ofParts?_eq_some_iff.mp h).2
  rw [IsLeap, hnanos]
  omega

/-- **No time that is made is in a leap second.**  Adding could stay in one, but cannot get into
one. -/
theorem IsMade.not_isLeap {t : Time} (h : t.IsMade) : ¬ t.IsLeap := by
  have hwhole {t : Time} (hnanos : t.nanos = 0) : ¬ t.IsLeap := by
    rw [IsLeap, hnanos]
    decide
  induction h with
  | @ofCivil c t h =>
    rw [ofCivil?, Option.ite_none_right_eq_some, ofSeconds?_eq_some_iff] at h
    exact hwhole h.2.2
  | ofSeconds h => exact hwhole (ofSeconds?_eq_some_iff.mp h).2
  | ofNanos h => exact not_isLeap_of_ofNanos? h
  | add ht h ih =>
    rw [addNanos?, if_pos (Nat.not_le.mp ih)] at h
    exact not_isLeap_of_ofNanos? h
  | @truncated t ht ih =>
    have hle : t.truncated.nanos ≤ t.nanos := Nat.div_mul_le_self _ _
    exact fun hleap ↦ ih (Nat.le_trans hleap hle)

end Time

/-! ## Spelling -/

namespace GeneralizedTime

/-- The octets are fourteen digits and the letter, and what the digits say is `c`, which need not
exist. -/
def Spells (o : Octets) (c : CivilTime) : Prop :=
  ∃ ds, o = ds ++ [0x5A] ∧ ds.length = 14 ∧ (∀ b ∈ ds, isDigit b = true) ∧ civil ds = c

/-- A date and time of day that exists is spelled by its text, and by no other octets. -/
theorem isTextOf_iff_spells {o : Octets} {c : CivilTime} :
    IsTextOf o c ↔ Spells o c ∧ c.Valid := by
  refine ⟨fun h ↦ ?_, fun h ↦ ?_⟩
  · obtain ⟨hlen, hall, hcivil⟩ := fields_spec (fits_of_valid h.valid h.year)
    exact ⟨⟨fields c, h.eq_fields, hlen, hall, hcivil⟩, h.valid⟩
  · obtain ⟨⟨ds, rfl, hlen, hall, rfl⟩, hvalid⟩ := h
    exact ⟨hvalid, year_civil hlen hall, by rw [fields_civil hlen hall]⟩

/-! ## Both ways -/

/-- **Texts and times are inverse.**  The octets that are read are those that spell a date and time
of day that exists, and they are read as its second.  What is written for a time that has been read
is what it has been read from.  And of any time in the years of four digits, what is written is read
as its whole second, which is the time truncated unless that is a leap second. -/
theorem texts_and_times :
    (∀ o t, read? o = some t ↔
        ∃ c, Spells o c ∧ c.Valid ∧ t.seconds = c.toSeconds ∧ t.nanos = 0) ∧
      (∀ o, (∃ t, read? o = some t) ↔ ∃ c, Spells o c ∧ c.Valid) ∧
      (∀ o t, read? o = some t → content t = o) ∧
      (∀ t : Time, 0 ≤ t.civil.year → t.civil.year ≤ 9999 →
        read? (content t) = some t.wholeSecond ∧
          (¬ t.IsLeap → read? (content t) = some t.truncated)) ∧
      ∀ t : Time, t.IsMade → ¬ t.IsLeap := by
  refine ⟨fun o t ↦ ?_, fun o ↦ ?_, fun o t h ↦ (read?_eq_some_iff.mp h).2.2.symm,
    fun t hfirst hlast ↦ ?_, fun t ↦ Time.IsMade.not_isLeap⟩
  · rw [← denotes_iff, Denotes]
    simp only [isTextOf_iff_spells, and_assoc]
  · simp only [← denotes_iff, ← isText_iff, IsText, isTextOf_iff_spells]
  · have hread := read?_content ⟨hfirst, hlast⟩
    refine ⟨hread, fun hleap ↦ ?_⟩
    rw [hread, Time.truncated_eq_wholeSecond_iff.mpr (Nat.not_le.mp hleap)]

/-- The last second of the year 9999, of which nearly all has passed. -/
theorem texts_and_times_last :
    let t : Time := ⟨253402300799, 999999999, by decide, by decide, by decide⟩
    (0 ≤ t.civil.year ∧ t.civil.year ≤ 9999 ∧ ¬ t.IsLeap) ∧
      read? (content t) = some t.truncated ∧ content t.truncated = content t := by
  intro t
  have hfirst : 0 ≤ t.civil.year := by decide +kernel +zetaReduce
  have hlast : t.civil.year ≤ 9999 := by decide +kernel +zetaReduce
  have hleap : ¬ t.IsLeap := by decide +kernel +zetaReduce
  obtain ⟨-, -, hwrite, hread, -⟩ := texts_and_times
  have htruncated := (hread t hfirst hlast).2 hleap
  exact ⟨⟨hfirst, hlast, hleap⟩, htruncated, hwrite _ _ htruncated⟩

/-- **A leap second is not read back.**  JSON has the one at the end of 2016, and what is written
for it is read as the ordinary second before it.  This is not the time truncated, which is still the
leap second. -/
theorem leap_second_not_read_back :
    let t : Time := ⟨1483228799, 1000000000, by decide, by decide, by decide⟩
    InternetTime.read? "2016-12-31T23:59:60Z" = some t ∧
      (0 ≤ t.civil.year ∧ t.civil.year ≤ 9999) ∧
      read? (content t) = some t.wholeSecond ∧ read? (content t) ≠ some t.truncated := by
  intro t
  have hjson : InternetTime.read? "2016-12-31T23:59:60Z" = some t := by decide +kernel +zetaReduce
  have hyear : 0 ≤ t.civil.year ∧ t.civil.year ≤ 9999 := by decide +kernel +zetaReduce
  have hleap : t.IsLeap := Nat.le_refl _
  have hread : read? (content t) = some t.wholeSecond := read?_content hyear
  refine ⟨hjson, hyear, hread, fun htruncated ↦ ?_⟩
  rw [hread, Option.some.injEq] at htruncated
  exact Nat.not_lt.mpr hleap (Time.truncated_eq_wholeSecond_iff.mp htruncated.symm)

end GeneralizedTime

end Rpki
