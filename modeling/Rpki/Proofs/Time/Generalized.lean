import Mathlib.Algebra.Group.Nat.Defs
import Mathlib.Data.List.Induction
import Rpki.Time.Generalized
import Rpki.Proofs.Decimal
import Rpki.Proofs.Time.Basic

/-!
# GeneralizedTimes have one spelling

`GeneralizedTime.read?_eq_some_iff` says that a time is read exactly from the content that is
written for it, for the times that have a content of the regular shape: whole seconds of the years 0
to 9999.  Its two halves meet in the fourteen digits, `GeneralizedTime.fields`.

* `field_spec` and `field_number`: a field of a date is written in its width and read back, and
  digits are what is written for the number they denote.
* `fields_spec` and `fields_civil`: the same for all six fields together.

Content that is not the text of a date and time of day that exists is not read at all
(`denotes_iff`, `isText_iff`).
-/

set_option autoImplicit false

namespace Rpki

namespace GeneralizedTime

/-! ## A single field -/

/-- The digits of a field in its width. -/
def field (width n : Nat) : Octets := (Decimal.padded width n).map fun c ↦ UInt8.ofNat c.toNat

theorem number_append_singleton (ds : Octets) (b : UInt8) :
    number (ds ++ [b]) = 10 * number ds + (b.toNat - 0x30) := by
  rw [number, List.foldl_append]
  rfl

/-- The octet of a digit. -/
theorem toNat_digit {n : Nat} (h : n < 10) :
    (UInt8.ofNat n.digitChar.toNat).toNat = 0x30 + n := by
  rw [Nat.toNat_digitChar_of_lt_ten h]
  exact UInt8.toNat_ofNat_of_lt' (show 48 + n < 256 by omega)

theorem isDigit_iff {b : UInt8} : isDigit b = true ↔ 0x30 ≤ b.toNat ∧ b.toNat ≤ 0x39 := by
  rw [isDigit, Bool.and_eq_true, decide_eq_true_eq, decide_eq_true_eq, UInt8.le_iff_toNat_le,
    UInt8.le_iff_toNat_le]
  rfl

theorem field_one {n : Nat} (h : n < 10) : field 1 n = [UInt8.ofNat n.digitChar.toNat] := by
  rw [field, Decimal.padded_one h]
  rfl

theorem field_add_two (width n : Nat) :
    field (width + 2) n =
      field (width + 1) (n / 10) ++ [UInt8.ofNat (n % 10).digitChar.toNat] := by
  rw [field, Decimal.padded_add_two, List.map_append]
  rfl

/-- A number that fits into the width is written in that many digits, and is read back. -/
theorem field_spec {width n : Nat} (h : n < 10 ^ (width + 1)) :
    (field (width + 1) n).length = width + 1 ∧ (∀ b ∈ field (width + 1) n, isDigit b = true) ∧
      number (field (width + 1) n) = n := by
  induction width generalizing n with
  | zero =>
    have hn : n < 10 := by simpa using h
    have hdigit := toNat_digit hn
    rw [field_one hn]
    refine ⟨rfl, fun b hb ↦ ?_, ?_⟩
    · rw [List.mem_singleton.mp hb, isDigit_iff]
      omega
    · rw [← List.nil_append [_], number_append_singleton, hdigit, number, List.foldl_nil]
      omega
  | succ width ih =>
    have hlt : n / 10 < 10 ^ (width + 1) := by
      rw [Nat.pow_succ] at h
      omega
    have hdigit := toNat_digit (show n % 10 < 10 by omega)
    obtain ⟨hlen, hall, hnumber⟩ := ih hlt
    rw [field_add_two]
    refine ⟨by rw [List.length_append, hlen]; rfl, fun b hb ↦ ?_, ?_⟩
    · rcases List.mem_append.mp hb with hb | hb
      · exact hall b hb
      · rw [List.mem_singleton.mp hb, isDigit_iff]
        omega
    · rw [number_append_singleton, hnumber, hdigit]
      omega

/-- Digits denote a number that fits into their width. -/
theorem number_lt {ds : Octets} (h : ∀ b ∈ ds, isDigit b = true) : number ds < 10 ^ ds.length := by
  induction ds using List.reverseRecOn with
  | nil => decide
  | append_singleton ds b ih =>
    have hds := ih fun b hb ↦ h b (List.mem_append_left _ hb)
    have hb := isDigit_iff.mp (h b (List.mem_append_right _ (List.mem_singleton.mpr rfl)))
    rw [number_append_singleton, List.length_append, List.length_singleton, Nat.pow_succ]
    omega

/-- Digits are what is written for the number they denote. -/
theorem field_number {ds : Octets} (h : ∀ b ∈ ds, isDigit b = true) (hne : ds ≠ []) :
    field ds.length (number ds) = ds := by
  induction ds using List.reverseRecOn with
  | nil => exact absurd rfl hne
  | append_singleton ds b ih =>
    have hb := isDigit_iff.mp (h b (List.mem_append_right _ (List.mem_singleton.mpr rfl)))
    have hdigit : UInt8.ofNat (b.toNat - 0x30).digitChar.toNat = b := by
      refine UInt8.toNat_inj.mp ?_
      rw [toNat_digit (by omega)]
      omega
    rw [number_append_singleton, List.length_append, List.length_singleton]
    cases ds with
    | nil =>
      have hsimp : 10 * number [] + (b.toNat - 0x30) = b.toNat - 0x30 := by
        rw [number, List.foldl_nil]
        omega
      rw [hsimp, List.length_nil, field_one (by omega), hdigit]
      rfl
    | cons a ds =>
      have hds := ih (fun b hb ↦ h b (List.mem_append_left _ hb)) (by simp)
      have hdiv : (10 * number (a :: ds) + (b.toNat - 0x30)) / 10 = number (a :: ds) := by omega
      have hmod : (10 * number (a :: ds) + (b.toNat - 0x30)) % 10 = b.toNat - 0x30 := by omega
      rw [List.length_cons] at hds ⊢
      rw [field_add_two, hdiv, hmod, hds, hdigit]

/-! ## All fields -/

/-- The fourteen digits of a date and time of day. -/
def fields (c : CivilTime) : Octets :=
  field 4 c.year.toNat ++ (field 2 c.month ++ (field 2 c.day ++ (field 2 c.hour ++
    (field 2 c.minute ++ field 2 c.second))))

/-- A date and time of day each field of which fits into its width. -/
structure Fits (c : CivilTime) : Prop where
  year : 0 ≤ c.year ∧ c.year ≤ 9999
  month : c.month < 100
  day : c.day < 100
  hour : c.hour < 100
  minute : c.minute < 100
  second : c.second < 100

theorem fits_of_valid {c : CivilTime} (h : c.Valid) (hyear : 0 ≤ c.year ∧ c.year ≤ 9999) :
    Fits c := by
  obtain ⟨⟨-, hmonth, -, hday⟩, hhour, hminute, hsecond⟩ := h
  have hlength := Calendar.daysInMonth_le c.year c.month
  exact ⟨hyear, by omega, by omega, by omega, by omega, by omega⟩

theorem civil_append {year month day hour minute second : Octets} (hy : year.length = 4)
    (hmo : month.length = 2) (hd : day.length = 2) (hh : hour.length = 2)
    (hmi : minute.length = 2) (hs : second.length = 2) :
    civil (year ++ (month ++ (day ++ (hour ++ (minute ++ second))))) =
      ⟨⟨number year, number month, number day⟩, number hour, number minute, number second⟩ := by
  simp (disch := omega) [civil, List.drop_append, hy, hmo, hd, hh, List.take_of_length_le,
    List.drop_of_length_le]

/-- The digits of a date are fourteen, and its fields are read back from them. -/
theorem fields_spec {c : CivilTime} (h : Fits c) :
    (fields c).length = 14 ∧ (∀ b ∈ fields c, isDigit b = true) ∧ civil (fields c) = c := by
  obtain ⟨hylen, hy, hynum⟩ :=
    field_spec (show c.year.toNat < 10 ^ (3 + 1) by have := h.year; omega)
  obtain ⟨hmolen, hmo, hmonum⟩ := field_spec (show c.month < 10 ^ (1 + 1) from h.month)
  obtain ⟨hdlen, hd, hdnum⟩ := field_spec (show c.day < 10 ^ (1 + 1) from h.day)
  obtain ⟨hhlen, hh, hhnum⟩ := field_spec (show c.hour < 10 ^ (1 + 1) from h.hour)
  obtain ⟨hmilen, hmi, hminum⟩ := field_spec (show c.minute < 10 ^ (1 + 1) from h.minute)
  obtain ⟨hslen, hs, hsnum⟩ := field_spec (show c.second < 10 ^ (1 + 1) from h.second)
  refine ⟨?_, ?_, ?_⟩
  · simp only [fields, List.length_append, hylen, hmolen, hdlen, hhlen, hmilen, hslen]
  · simp only [fields, List.forall_mem_append]
    exact ⟨hy, hmo, hd, hh, hmi, hs⟩
  · rw [fields, civil_append hylen hmolen hdlen hhlen hmilen hslen, hynum, hmonum, hdnum, hhnum,
      hminum, hsnum, Int.toNat_of_nonneg h.year.1]

/-- Fourteen digits are those of the date that they denote. -/
theorem fields_civil {ds : Octets} (hlen : ds.length = 14) (h : ∀ b ∈ ds, isDigit b = true) :
    fields (civil ds) = ds := by
  have hpart : ∀ i n, n + i + 1 ≤ 14 →
      field (n + 1) (number ((ds.drop i).take (n + 1))) = (ds.drop i).take (n + 1) := by
    intro i n hi
    have hpartlen : ((ds.drop i).take (n + 1)).length = n + 1 := by
      rw [List.length_take, List.length_drop]
      omega
    have hfield := field_number (fun b hb ↦ h b (List.mem_of_mem_drop (List.mem_of_mem_take hb)))
      (List.ne_nil_of_length_eq_add_one hpartlen)
    rwa [hpartlen] at hfield
  have hsplit : ∀ i n, (ds.drop i).take n ++ ds.drop (i + n) = ds.drop i := by
    intro i n
    rw [← List.drop_drop, List.take_append_drop]
  have hlast : ds.drop 14 = [] := List.drop_eq_nil_of_le (Nat.le_of_eq hlen)
  have hyear := hpart 0 3 (by decide)
  rw [List.drop_zero] at hyear
  rw [fields]
  simp only [civil, Int.toNat_natCast]
  rw [hyear, hpart 4 1 (by decide), hpart 6 1 (by decide), hpart 8 1 (by decide),
    hpart 10 1 (by decide), hpart 12 1 (by decide)]
  calc _ = ds.take 4 ++ ((ds.drop 4).take 2 ++ ((ds.drop 6).take 2 ++ ((ds.drop 8).take 2 ++
        ((ds.drop 10).take 2 ++ ((ds.drop 12).take 2 ++ ds.drop 14))))) := by
        rw [hlast, List.append_nil]
    _ = ds := by
        rw [hsplit 12 2, hsplit 10 2, hsplit 8 2, hsplit 6 2, hsplit 4 2, List.take_append_drop]

/-- Four digits denote a year of four digits. -/
theorem year_civil {ds : Octets} (hlen : ds.length = 14) (h : ∀ b ∈ ds, isDigit b = true) :
    0 ≤ (civil ds).year ∧ (civil ds).year ≤ 9999 := by
  have hlt : number (ds.take 4) < 10 ^ (ds.take 4).length :=
    number_lt fun b hb ↦ h b (List.mem_of_mem_take hb)
  rw [List.length_take_of_le (show 4 ≤ ds.length by omega)] at hlt
  simp only [civil]
  omega

/-! ## The content -/

/-- From the year 0 on, the content is the digits and the letter. -/
theorem content_eq {t : Time} (h : 0 ≤ t.civil.year) : content t = fields t.civil ++ [0x5A] := by
  simp only [content, text, yearText, if_pos h, fields, field, List.map_append, List.append_assoc]
  rfl

/-- In the regular years the content has the stated length. -/
theorem length_content {t : Time} (h : 0 ≤ t.civil.year ∧ t.civil.year ≤ 9999) :
    (content t).length = statedLength := by
  have hfits := fits_of_valid t.valid_civil h
  rw [content_eq h.1, List.length_append, (fields_spec hfits).1]
  rfl

theorem read?_append_letter {ds : Octets} (hlen : ds.length = 14)
    (h : ∀ b ∈ ds, isDigit b = true) : read? (ds ++ [0x5A]) = Time.ofCivil? (civil ds) := by
  have htake : (ds ++ [0x5A]).take 14 = ds := List.take_left' hlen
  have hdrop : (ds ++ [0x5A]).drop 14 = [0x5A] := List.drop_left' hlen
  have hlength : (ds ++ [0x5A]).length = 15 := by rw [List.length_append, hlen]; rfl
  rw [read?, if_pos ⟨hlength, hdrop, by rw [htake, List.all_eq_true]; exact h⟩, htake]

/-- What is read is fourteen digits and the letter. -/
theorem exists_digits_of_read? {o : Octets} {t : Time} (h : read? o = some t) :
    ∃ ds, o = ds ++ [0x5A] ∧ ds.length = 14 ∧ (∀ b ∈ ds, isDigit b = true) ∧
      (civil ds).Valid ∧ t.seconds = (civil ds).toSeconds ∧ t.nanos = 0 := by
  simp only [read?, Option.ite_none_right_eq_some, Time.ofCivil?, Time.ofSeconds?_eq_some_iff,
    List.all_eq_true] at h
  obtain ⟨⟨hlen, hdrop, hall⟩, hvalid, hseconds, hnanos⟩ := h
  refine ⟨o.take 14, ?_, ?_, hall, hvalid, hseconds, hnanos⟩
  · rw [← hdrop, List.take_append_drop]
  · rw [List.length_take, hlen]
    rfl

/-- **A time is read exactly from the content that is written for it**, if it is a whole second of
one of the years 0 to 9999. -/
theorem read?_eq_some_iff {o : Octets} {t : Time} :
    read? o = some t ↔
      (0 ≤ t.civil.year ∧ t.civil.year ≤ 9999) ∧ t.nanos = 0 ∧ o = content t := by
  refine ⟨fun h ↦ ?_, fun h ↦ ?_⟩
  · obtain ⟨ds, rfl, hlen, hall, hvalid, hseconds, hnanos⟩ := exists_digits_of_read? h
    have hcivil : t.civil = civil ds := by
      rw [Time.civil, hseconds, CivilTime.ofSeconds_toSeconds hvalid]
    have hyear : 0 ≤ t.civil.year ∧ t.civil.year ≤ 9999 := hcivil ▸ year_civil hlen hall
    exact ⟨hyear, hnanos, by rw [content_eq hyear.1, hcivil, fields_civil hlen hall]⟩
  · obtain ⟨hyear, hnanos, rfl⟩ := h
    have hfits := fits_of_valid t.valid_civil hyear
    obtain ⟨hlen, hall, hcivil⟩ := fields_spec hfits
    rw [content_eq hyear.1, read?_append_letter hlen hall, hcivil, Time.ofCivil?,
      if_pos t.valid_civil, Time.ofSeconds?_eq_some_iff]
    exact ⟨t.toSeconds_civil.symm, hnanos⟩

/-- Of any time of these years, the whole second is read back. -/
theorem read?_content {t : Time} (h : 0 ≤ t.civil.year ∧ t.civil.year ≤ 9999) :
    read? (content t) = some t.wholeSecond :=
  read?_eq_some_iff.mpr ⟨h, rfl, rfl⟩

/-! ## The text -/

/-- The octets are the text `YYYYMMDDHHMMSSZ` of a date and time of day that exists. -/
structure IsTextOf (o : Octets) (c : CivilTime) : Prop where
  valid : c.Valid
  year : 0 ≤ c.year ∧ c.year ≤ 9999
  eq_fields : o = fields c ++ [0x5A]

/-- The octets are the text of some date and time of day. -/
def IsText (o : Octets) : Prop := ∃ c, IsTextOf o c

/-- The octets are the text of the date and time of day of `t`, which has no fraction. -/
def Denotes (o : Octets) (t : Time) : Prop :=
  ∃ c, IsTextOf o c ∧ t.seconds = c.toSeconds ∧ t.nanos = 0

/-- **What is read is the time that the text denotes.** -/
theorem denotes_iff {o : Octets} {t : Time} : Denotes o t ↔ read? o = some t := by
  rw [read?_eq_some_iff]
  refine ⟨fun h ↦ ?_, fun h ↦ ?_⟩
  · obtain ⟨c, ⟨hvalid, hyear, rfl⟩, hseconds, hnanos⟩ := h
    have hcivil : t.civil = c := by rw [Time.civil, hseconds, CivilTime.ofSeconds_toSeconds hvalid]
    subst hcivil
    exact ⟨hyear, hnanos, (content_eq hyear.1).symm⟩
  · obtain ⟨hyear, hnanos, rfl⟩ := h
    exact ⟨t.civil, ⟨t.valid_civil, hyear, content_eq hyear.1⟩, t.toSeconds_civil.symm, hnanos⟩

/-- Every text denotes a time. -/
theorem isText_iff {o : Octets} : IsText o ↔ ∃ t, Denotes o t := by
  refine ⟨fun h ↦ ?_, fun h ↦ ?_⟩
  · obtain ⟨c, hc⟩ := h
    obtain ⟨t, ht⟩ := Time.exists_ofCivil?_eq_some hc.valid hc.year
    rw [Time.ofCivil?, if_pos hc.valid, Time.ofSeconds?_eq_some_iff] at ht
    exact ⟨t, c, hc, ht⟩
  · obtain ⟨t, c, hc, -⟩ := h
    exact ⟨c, hc⟩

end GeneralizedTime

end Rpki
