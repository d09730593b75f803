import Mathlib.Data.List.Lex
import Rpki.Proofs.Calendar.Order
import Rpki.Proofs.Time.Generalized
import Rpki.Proofs.Transfer.Reader

/-!
# Texts of times are in the order of the times

The content of a GeneralizedTime has its fields in the order of their weight, and each of them in a
fixed width.  So two contents can be put in order octet by octet, without reading them, and this is
the order of their fields (`fields_lex_iff`), of the times (`Time.seconds_lt_iff`) and of the
seconds that stand for the times in the transfer form.
-/

set_option autoImplicit false

namespace Rpki

namespace GeneralizedTime

/-! ## Octets in order -/

/-- Octets are compared part by part if the parts have the same lengths. -/
theorem lex_append_iff {p q r s : Octets} (h : p.length = q.length) :
    List.Lex (· < ·) (p ++ r) (q ++ s) ↔
      List.Lex (· < ·) p q ∨ (p = q ∧ List.Lex (· < ·) r s) := by
  induction p generalizing q with
  | nil =>
    obtain rfl := List.length_eq_zero_iff.mp h.symm
    simp
  | cons a p ih =>
    cases q with
    | nil => exact absurd h (Nat.succ_ne_zero _)
    | cons b q =>
      rw [List.cons_append, List.cons_append, List.cons_lex_cons_iff, List.cons_lex_cons_iff,
        ih (Nat.succ.inj h), List.cons.injEq, and_or_left, or_assoc, and_assoc]

theorem digit_lt_iff {n m : Nat} (hn : n < 10) (hm : m < 10) :
    UInt8.ofNat n.digitChar.toNat < UInt8.ofNat m.digitChar.toNat ↔ n < m := by
  rw [UInt8.lt_iff_toNat_lt, toNat_digit hn, toNat_digit hm]
  omega

theorem field_inj {width n m : Nat} (hn : n < 10 ^ (width + 1)) (hm : m < 10 ^ (width + 1)) :
    field (width + 1) n = field (width + 1) m ↔ n = m := by
  refine ⟨fun h ↦ ?_, fun h ↦ congrArg _ h⟩
  rw [← (field_spec hn).2.2, ← (field_spec hm).2.2, h]

/-- **Numbers are in the order of their digits**, if they are written in the same width.  The
induction peels off the last digit, which decides only between numbers with the same digits in
front. -/
theorem field_lex_iff (width : Nat) {n m : Nat} (hn : n < 10 ^ (width + 1))
    (hm : m < 10 ^ (width + 1)) :
    List.Lex (· < ·) (field (width + 1) n) (field (width + 1) m) ↔ n < m := by
  induction width generalizing n m with
  | zero =>
    rw [Nat.zero_add, Nat.pow_one] at hn hm
    rw [field_one hn, field_one hm, List.lex_singleton_iff, digit_lt_iff hn hm]
  | succ width ih =>
    have hn' : n / 10 < 10 ^ (width + 1) := by rw [Nat.pow_succ] at hn; omega
    have hm' : m / 10 < 10 ^ (width + 1) := by rw [Nat.pow_succ] at hm; omega
    have hlength := (field_spec hn').1.trans (field_spec hm').1.symm
    rw [field_add_two, field_add_two, lex_append_iff hlength, ih hn' hm', field_inj hn' hm',
      List.lex_singleton_iff, digit_lt_iff (by omega) (by omega)]
    omega

/-- What is behind a number decides only if the numbers are the same. -/
theorem lex_field_append_iff (width : Nat) {n m : Nat} (hn : n < 10 ^ (width + 1))
    (hm : m < 10 ^ (width + 1)) {r s : Octets} :
    List.Lex (· < ·) (field (width + 1) n ++ r) (field (width + 1) m ++ s) ↔
      n < m ∨ (n = m ∧ List.Lex (· < ·) r s) := by
  have hlength := (field_spec hn).1.trans (field_spec hm).1.symm
  rw [lex_append_iff hlength, field_lex_iff width hn hm, field_inj hn hm]

/-- **Dates with a time of day are in the order of their digits.** -/
theorem fields_lex_iff {c d : CivilTime} (hc : Fits c) (hd : Fits d) :
    List.Lex (· < ·) (fields c) (fields d) ↔ c < d := by
  have hcyear := hc.year
  have hdyear := hd.year
  have hcy : c.year.toNat < 10 ^ (3 + 1) := by omega
  have hdy : d.year.toNat < 10 ^ (3 + 1) := by omega
  have hyear : c.year.toNat < d.year.toNat ↔ c.year < d.year := by omega
  have hyear' : c.year.toNat = d.year.toNat ↔ c.year = d.year := by omega
  rw [fields, fields, lex_field_append_iff 3 hcy hdy, lex_field_append_iff 1 hc.month hd.month,
    lex_field_append_iff 1 hc.day hd.day, lex_field_append_iff 1 hc.hour hd.hour,
    lex_field_append_iff 1 hc.minute hd.minute, field_lex_iff 1 hc.second hd.second, hyear, hyear',
    CivilTime.lt_iff, Date.lt_iff, Date.ext_iff]
  omega

end GeneralizedTime

/-! ## Times in order -/

/-- **Times are in the order of their dates and times of day.** -/
theorem Time.seconds_lt_iff (s t : Time) : s.seconds < t.seconds ↔ s.civil < t.civil := by
  rw [← s.toSeconds_civil, ← t.toSeconds_civil]
  exact CivilTime.toSeconds_lt_iff s.valid_civil t.valid_civil

/-- The seconds of a time are a number of 64 bits, and are transferred as this number. -/
theorem Time.int64_transferred (t : Time) :
    ∃ n : Int64, n.toInt = t.seconds ∧
      Transfer.Reader.int64 (Transfer.Writer.time t) = (.ok n, []) := by
  have hfirst := t.first_le
  have hlast := t.le_last
  refine ⟨Int64.ofInt t.seconds, Int64.toInt_ofInt_of_le (by omega) (by omega), ?_⟩
  exact Transfer.Reader.int64_eq_ok_iff.mpr (List.append_nil _).symm

namespace GeneralizedTime

/-- The fields of a time that has been read are those of the text. -/
theorem civil_of_read? {o : Octets} {t : Time} (h : read? o = some t) :
    t.civil = civil (o.take 14) := by
  obtain ⟨ds, rfl, hlen, -, hvalid, hseconds, -⟩ := exists_digits_of_read? h
  rw [List.take_left' hlen, Time.civil, hseconds, CivilTime.ofSeconds_toSeconds hvalid]

/-- Contents are in the order of their fields, since the letter behind these decides nothing. -/
theorem content_lex_iff {s t : Time} (hs : 0 ≤ s.civil.year ∧ s.civil.year ≤ 9999)
    (ht : 0 ≤ t.civil.year ∧ t.civil.year ≤ 9999) :
    List.Lex (· < ·) (content s) (content t) ↔ s.civil < t.civil := by
  have hsfits := fits_of_valid s.valid_civil hs
  have htfits := fits_of_valid t.valid_civil ht
  have hlength := (fields_spec hsfits).1.trans (fields_spec htfits).1.symm
  have hletter : ¬ List.Lex (· < ·) ([0x5A] : Octets) [0x5A] := by
    rw [List.lex_singleton_iff]
    exact UInt8.lt_irrefl _
  rw [content_eq hs.1, content_eq ht.1, lex_append_iff hlength, fields_lex_iff hsfits htfits]
  exact or_iff_left fun h ↦ hletter h.2

/-- **Text order, field order and time order are the same**, and so is the order of the seconds that
are transferred for the times. -/
theorem texts_in_order {a b : Octets} {s t : Time} (ha : read? a = some s) (hb : read? b = some t) :
    (s < t ↔ List.Lex (· < ·) a b) ∧ (s = t ↔ a = b) ∧
      (s < t ↔ civil (a.take 14) < civil (b.take 14)) ∧
      ∃ m n : Int64, Transfer.Reader.int64 (Transfer.Writer.time s) = (.ok m, []) ∧
        Transfer.Reader.int64 (Transfer.Writer.time t) = (.ok n, []) ∧
        (s < t ↔ m < n) ∧ (s = t ↔ m = n) := by
  rw [← civil_of_read? ha, ← civil_of_read? hb]
  obtain ⟨hsyear, hsnanos, rfl⟩ := read?_eq_some_iff.mp ha
  obtain ⟨htyear, htnanos, rfl⟩ := read?_eq_some_iff.mp hb
  have hlt : s < t ↔ s.seconds < t.seconds := by
    rw [Time.lt_iff]
    omega
  have heq : s = t ↔ s.seconds = t.seconds :=
    ⟨fun h ↦ congrArg _ h, fun h ↦ Time.eq_of_parts h (hsnanos.trans htnanos.symm)⟩
  have hfields : s < t ↔ s.civil < t.civil := hlt.trans (Time.seconds_lt_iff s t)
  refine ⟨hfields.trans (content_lex_iff hsyear htyear).symm, ⟨congrArg content, fun h ↦ ?_⟩,
    hfields, ?_⟩
  · rw [h, hb] at ha
    exact (Option.some.inj ha).symm
  · obtain ⟨m, hm, hreadm⟩ := s.int64_transferred
    obtain ⟨n, hn, hreadn⟩ := t.int64_transferred
    refine ⟨m, n, hreadm, hreadn, ?_, ?_⟩
    · rw [hlt, Int64.lt_iff_toInt_lt, hm, hn]
    · rw [heq, ← Int64.toInt_inj, hm, hn]

/-- The last second of a leap day in a full century, and the second after it. -/
theorem texts_in_order_leap_day :
    let a : Octets :=
      [0x32, 0x30, 0x30, 0x30, 0x30, 0x32, 0x32, 0x39, 0x32, 0x33, 0x35, 0x39, 0x35, 0x39, 0x5A]
    let b : Octets :=
      [0x32, 0x30, 0x30, 0x30, 0x30, 0x33, 0x30, 0x31, 0x30, 0x30, 0x30, 0x30, 0x30, 0x30, 0x5A]
    let s : Time := ⟨951868799, 0, by decide, by decide, by decide⟩
    let t : Time := ⟨951868800, 0, by decide, by decide, by decide⟩
    read? a = some s ∧ read? b = some t ∧ s < t ∧ List.Lex (· < ·) a b ∧
      civil (a.take 14) < civil (b.take 14) := by
  intro a b s t
  have ha : read? a = some s := by decide +kernel +zetaReduce
  have hb : read? b = some t := by decide +kernel +zetaReduce
  have hlt : s < t := by decide +kernel +zetaReduce
  obtain ⟨htext, -, hfields, -⟩ := texts_in_order ha hb
  exact ⟨ha, hb, hlt, htext.mp hlt, hfields.mp hlt⟩

end GeneralizedTime

end Rpki
