import Rpki.Proofs.Decimal
import Rpki.Proofs.Time.Basic
import Rpki.Time.Internet

/-!
# Times in JSON are read back

A good many texts are read as times, and only one of them is written for each.  `InternetTime.read?`
gives the time back from that one, `read?_text`: with every digit of the fraction, in any year there
is, and as the same leap second.

The text is read from left to right, so each part of it has a lemma for its reader that is about the
part with anything behind it.  Readers take as many digits as they can and skip blanks, which is why
some of these lemmas have to know with what the rest starts.
-/

set_option autoImplicit false

namespace Rpki

namespace InternetTime

open Decimal (isDigit padded)
open Text (isBlank skipBlanks)

/-! ## Where blanks may stand -/

/-- A digit is not blank. -/
theorem isBlank_of_isDigit {c : Char} (h : isDigit c = true) : isBlank c = false := by
  rw [Decimal.isDigit_iff] at h
  simp only [isBlank, Text.blankRanges, List.any_cons, List.any_nil, Bool.or_eq_false_iff,
    Bool.and_eq_false_iff, decide_eq_false_iff_not, and_true]
  omega

/-- Nothing is skipped in front of something that is not blank. -/
theorem skipBlanks_eq_self {cs : List Char} (h : ∀ c ∈ cs.head?, isBlank c = false) :
    skipBlanks cs = cs := by
  cases cs with
  | nil => rfl
  | cons c cs =>
    have hc : isBlank c = false := h c rfl
    exact List.dropWhile_cons_of_neg (by simp [hc])

/-- A padded decimal starts with a digit. -/
theorem exists_digit_of_padded (width n : Nat) :
    ∃ c cs, padded width n = c :: cs ∧ isDigit c = true := by
  obtain ⟨c, cs, hcs⟩ := List.exists_cons_of_ne_nil (Decimal.padded_ne_nil width n)
  exact ⟨c, cs, hcs, Decimal.isDigit_of_mem_padded (hcs ▸ List.mem_cons_self)⟩

theorem skipBlanks_padded (width n : Nat) (rest : List Char) :
    skipBlanks (padded width n ++ rest) = padded width n ++ rest := by
  obtain ⟨c, cs, hcs, hc⟩ := exists_digit_of_padded width n
  rw [hcs]
  refine skipBlanks_eq_self fun d hd ↦ ?_
  obtain rfl : c = d := Option.some.inj hd
  exact isBlank_of_isDigit hc

/-! ## Numbers -/

theorem two?_padded {n : Nat} (h : n < 100) (rest : List Char) :
    two? (padded 2 n ++ rest) = some (n, rest) := by
  rw [two?, skipBlanks_padded, Decimal.number?_padded (by decide) h]

/-- Without a sign a year has four digits at most. -/
theorem year?_of_isDigit {c : Char} {cs : List Char} (h : isDigit c = true) :
    year? (c :: cs) = (Decimal.number? 4 (c :: cs)).map fun (n, cs) ↦ ((n : Int), cs) := by
  have hne {d : Char} (hd : isDigit d = false) (cs' : List Char) : c :: cs ≠ d :: cs' := by
    intro heq
    rw [(List.cons.inj heq).1, hd] at h
    exact Bool.false_ne_true h
  rw [year?]
  · exact hne rfl
  · exact hne rfl

/-- **Every year is read back**, be it in four digits or with a sign. -/
theorem year?_yearText (year : Int) {rest : List Char} (h : ∀ c ∈ rest.head?, isDigit c = false) :
    year? (skipBlanks (Time.yearText year ++ rest)) = some (year, rest) := by
  rw [Time.yearText]
  split
  · next hyear =>
    obtain ⟨c, cs, hcs, hc⟩ := exists_digit_of_padded 4 year.toNat
    have hnumber : Decimal.number? 4 (padded 4 year.toNat ++ rest) = some (year.toNat, rest) :=
      Decimal.number?_padded (by decide) (by omega) rest
    rw [skipBlanks_padded, hcs, List.cons_append, year?_of_isDigit hc, ← List.cons_append, ← hcs,
      hnumber, Option.map_some]
    exact congrArg (fun y ↦ some (y, rest)) (Int.toNat_of_nonneg hyear.1)
  · have hrun := Decimal.run?_padded 4 year.natAbs h
    have hvalue := Decimal.value_padded 4 year.natAbs
    -- Both signs are read in the same way.
    split
    all_goals
      rw [List.cons_append, skipBlanks_eq_self (by rintro _ ⟨⟩; decide), year?, hrun,
        Option.map_some]
      dsimp only
      rw [hvalue]
      exact congrArg (fun y ↦ some (y, rest)) (by omega)

/-! ## Date, fraction and offset -/

theorem char?_skipBlanks_cons {c : Char} (hc : isBlank c = false) (rest : List Char) :
    char? c (skipBlanks (c :: rest)) = some rest := by
  rw [skipBlanks_eq_self (by rintro _ ⟨⟩; exact hc), char?, if_pos rfl]

/-- A date is read back if its month and day have two digits. -/
theorem date?_yearText (year : Int) {month day : Nat} (hmonth : month < 100) (hday : day < 100)
    (rest : List Char) :
    date? (Time.yearText year ++ '-' :: (padded 2 month ++ '-' :: (padded 2 day ++ rest))) =
      some (⟨year, month, day⟩, rest) := by
  have hyear (cs : List Char) :
      year? (skipBlanks (Time.yearText year ++ '-' :: cs)) = some (year, '-' :: cs) :=
    year?_yearText year (by rintro _ ⟨⟩; decide)
  have hdash := char?_skipBlanks_cons (show isBlank '-' = false by decide)
  simp only [date?, hyear, hdash, two?_padded hmonth, two?_padded hday, Option.bind_eq_bind,
    Option.bind_some, Option.pure_def]

/-- A fraction in `k` digits, which are all that is exact of it. -/
theorem fraction?_padded {k n : Nat} (hk : 0 < k) (hk9 : k ≤ 9) (h : n < 10 ^ k)
    {rest : List Char} (hrest : ∀ c ∈ rest.head?, isDigit c = false) :
    fraction? ('.' :: padded k n ++ rest) = some (n * 10 ^ (9 - k), rest) := by
  have hlength := Decimal.length_padded hk h
  have hkept : (padded k n).take 9 = padded k n := List.take_of_length_le (by omega)
  rw [List.cons_append, fraction?, Decimal.run?_padded k n hrest]
  dsimp only [Option.map_some]
  rw [hkept, hlength, Decimal.value_padded, Nat.pow_eq]

/-- **A fraction is read back**, in as many digits as it was written. -/
theorem fraction?_fractionText {n : Nat} (h : n < 1000000000) {rest : List Char}
    (hrest : ∀ c ∈ rest.head?, isDigit c = false ∧ c ≠ '.') :
    fraction? (fractionText n ++ rest) = some (n, rest) := by
  have hdigit : ∀ c ∈ rest.head?, isDigit c = false := fun c hc ↦ (hrest c hc).1
  rw [fractionText]
  split
  · next hzero =>
    rw [List.nil_append, fraction?, hzero]
    rintro cs rfl
    exact (hrest '.' rfl).2 rfl
  split
  · rw [fraction?_padded (by decide) (by decide) (by omega) hdigit]
    exact congrArg (fun m ↦ some (m, rest)) (by omega)
  split
  · rw [fraction?_padded (by decide) (by decide) (by omega) hdigit]
    exact congrArg (fun m ↦ some (m, rest)) (by omega)
  · rw [fraction?_padded (by decide) (by decide) (by omega) hdigit]
    exact congrArg (fun m ↦ some (m, rest)) (by omega)

/-- The parts of a time make it again.  A leap second is told by the second 60, which is the second
59 with a full second more behind it. -/
theorem resolve?_civil (t : Time) :
    resolve? ⟨t.civil.toDate, t.civil.hour, t.civil.minute, t.civil.second + t.nanos / 1000000000⟩
      (t.nanos % 1000000000) 0 = some t := by
  have hparts := t.ofCivil?_civil
  have hsecond : t.civil.second = (t.seconds % 86400).toNat % 60 := rfl
  have hback : Time.ofParts? t.seconds t.nanos = some t :=
    Time.ofParts?_eq_some_iff.mpr ⟨rfl, rfl⟩
  rw [resolve?]
  by_cases hordinary : t.nanos < 1000000000
  · have hsame : t.civil.second + t.nanos / 1000000000 = t.civil.second := by omega
    have hne : (t.civil.second == 60) = false := by
      rw [beq_eq_false_iff_ne]
      omega
    have hmod : t.nanos % 1000000000 = t.nanos := Nat.mod_eq_of_lt hordinary
    simp only [hsame, hne, Bool.false_eq_true, if_false, hmod, hparts, Option.bind_eq_bind,
      Option.bind_some, Int.natAbs_zero, Nat.zero_lt_succ, if_true, Time.wholeSecond, Int.sub_zero]
    exact hback
  · obtain ⟨hleap, hlast⟩ := t.nanos_lt.resolve_left hordinary
    have hcivil : (59 : Nat) = t.civil.second := by omega
    have hnext : t.civil.second + t.nanos / 1000000000 = 60 := by omega
    have hmod : 1000000000 + t.nanos % 1000000000 = t.nanos := by omega
    simp only [hnext, beq_self_eq_true, if_true, hcivil, hmod, hparts, Option.bind_eq_bind,
      Option.bind_some, Int.natAbs_zero, Nat.zero_lt_succ, Time.wholeSecond, Int.sub_zero]
    exact hback

/-! ## The whole text -/

/-- **A time is read back from its text**, whatever year it is in, with its fraction and as a leap
second if it is one. -/
theorem read?_text (t : Time) : read? (text t) = some t := by
  obtain ⟨⟨-, hmonth, -, hday⟩, hhour, hminute, hsecond⟩ := t.valid_civil
  have hlength := Calendar.daysInMonth_le t.civil.year t.civil.month
  have hleap := t.nanos_lt
  have hcolon := char?_skipBlanks_cons (show isBlank ':' = false by decide)
  have hmonth' : t.civil.month < 100 := by omega
  have hday' : t.civil.day < 100 := by omega
  have hfraction : fraction? (fractionText (t.nanos % 1000000000) ++ ['Z']) =
      some (t.nanos % 1000000000, ['Z']) :=
    fraction?_fractionText (Nat.mod_lt _ (by decide)) (by rintro _ ⟨⟩; decide)
  have hseparator (cs : List Char) : separator? ('T' :: cs) = some cs := rfl
  have hoffset : offset? (skipBlanks ['Z']) = some (0, []) := by decide
  have hend : (skipBlanks []).isEmpty = true := rfl
  rw [read?, text, String.toList_ofList, readChars?, Time.secondText]
  simp only [List.append_assoc, List.cons_append, date?_yearText _ hmonth' hday', hseparator,
    hcolon, hfraction, hoffset, hend, two?_padded (show t.civil.hour < 100 by omega),
    two?_padded (show t.civil.minute < 100 by omega),
    two?_padded (show t.civil.second + t.nanos / 1000000000 < 100 by omega),
    Option.bind_eq_bind, Option.bind_some, if_true]
  exact resolve?_civil t

end InternetTime

end Rpki
