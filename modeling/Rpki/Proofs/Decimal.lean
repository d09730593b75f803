import Mathlib.Algebra.Group.Nat.Defs
import Mathlib.Data.List.TakeWhile
import Rpki.Decimal

/-!
# Padded decimals digit by digit

A padded decimal is its last digit behind the padded decimal of what is left without it, as long as
there is room for two digits.  That makes statements about padded decimals inductions on the width,
and the library's own digits are looked at only here.

The two ways of taking a number off the front of a text give a padded decimal back: `run?_padded` if
something else than a digit follows it, `number?_padded` whatever follows if the limit is its width.
-/

set_option autoImplicit false

namespace Rpki

namespace Decimal

/-! ## Writing -/

theorem padded_one {n : Nat} (h : n < 10) : padded 1 n = [n.digitChar] := by
  rw [padded, digits, Nat.toDigits_of_lt_base h]
  rfl

/-- The last digit, and the rest. -/
theorem padded_add_two (width n : Nat) :
    padded (width + 2) n = padded (width + 1) (n / 10) ++ [(n % 10).digitChar] := by
  rw [padded, padded, digits, digits]
  by_cases h : n < 10
  · have hzero : n / 10 = 0 := by omega
    rw [Nat.toDigits_of_lt_base h, hzero, Nat.toDigits_zero, Nat.mod_eq_of_lt h]
    rw [List.length_singleton, List.length_singleton, Nat.add_sub_cancel,
      show width + 2 - 1 = width + 1 from rfl, List.replicate_succ']
  · have hdigits := Nat.toDigits_of_base_le (b := 10) (n := n) (by decide) (by omega)
    have hpad : width + 2 - ((Nat.toDigits 10 (n / 10)).length + 1) =
        width + 1 - (Nat.toDigits 10 (n / 10)).length := by omega
    rw [hdigits, List.length_append, List.length_singleton, hpad, List.append_assoc]

/-! ## Reading -/

theorem value_append_singleton (ds : List Char) (c : Char) :
    value (ds ++ [c]) = 10 * value ds + (c.toNat - '0'.toNat) := by
  rw [value, List.foldl_append]
  rfl

theorem value_digitChar {n : Nat} (h : n < 10) : value [n.digitChar] = n := by
  have hchar := Nat.toNat_digitChar_sub_48_of_lt_ten h
  rw [← List.nil_append [_], value_append_singleton]
  exact (Nat.zero_add _).trans hchar

theorem value_digits (n : Nat) : value (digits n) = n := by
  induction n using Nat.strongRecOn with
  | ind n ih =>
    by_cases h : n < 10
    · rw [digits, Nat.toDigits_of_lt_base h, value_digitChar h]
    · have hdiv := ih (n / 10) (by omega)
      have hlast := Nat.toNat_digitChar_sub_48_of_lt_ten (show n % 10 < 10 by omega)
      rw [digits] at hdiv
      rw [digits, Nat.toDigits_of_base_le (by decide) (by omega), value_append_singleton, hdiv,
        show '0'.toNat = 48 from rfl, hlast]
      omega

/-- Zeros in front do not count. -/
theorem value_padded (width n : Nat) : value (padded width n) = n := by
  have hzeros (k : Nat) : value (List.replicate k '0' ++ digits n) = value (digits n) := by
    induction k with
    | zero => rfl
    | succ k ih => exact ih
  rw [padded, hzeros, value_digits]

theorem isDigit_iff {c : Char} : isDigit c = true ↔ 48 ≤ c.toNat ∧ c.toNat ≤ 57 := by
  rw [isDigit, Bool.and_eq_true, decide_eq_true_eq, decide_eq_true_eq, Char.le_def, Char.le_def,
    UInt32.le_iff_toNat_le, UInt32.le_iff_toNat_le]
  rfl

theorem isDigit_of_mem_padded {width n : Nat} {c : Char} (h : c ∈ padded width n) :
    isDigit c = true := by
  rcases List.mem_append.mp h with hzero | hdigit
  · rw [List.eq_of_mem_replicate hzero]
    rfl
  · have hdigit := Nat.isDigit_of_mem_toDigits (by decide) (by decide) hdigit
    exact hdigit

theorem length_padded {width n : Nat} (hwidth : 0 < width) (h : n < 10 ^ width) :
    (padded width n).length = width := by
  have hle : (digits n).length ≤ width :=
    (Nat.length_toDigits_le_iff (by decide) hwidth).mpr h
  rw [padded, List.length_append, List.length_replicate]
  omega

theorem padded_ne_nil (width n : Nat) : padded width n ≠ [] :=
  List.append_ne_nil_of_right_ne_nil _ Nat.toDigits_ne_nil

/-- A padded decimal is taken as a whole if no digit follows it. -/
theorem run?_padded (width n : Nat) {rest : List Char}
    (h : ∀ c ∈ rest.head?, isDigit c = false) :
    run? (padded width n ++ rest) = some (padded width n, rest) := by
  have hdigits : ∀ c ∈ padded width n, isDigit c = true := fun c ↦ isDigit_of_mem_padded
  have hrest : rest.takeWhile isDigit = [] ∧ rest.dropWhile isDigit = rest := by
    cases rest with
    | nil => exact ⟨rfl, rfl⟩
    | cons c rest =>
      have hc : isDigit c = false := h c rfl
      exact ⟨List.takeWhile_cons_of_neg (by simp [hc]), List.dropWhile_cons_of_neg (by simp [hc])⟩
  rw [run?, List.takeWhile_append_of_pos hdigits, List.dropWhile_append_of_pos hdigits, hrest.1,
    hrest.2, List.append_nil]
  split
  · next hnil => exact absurd hnil (padded_ne_nil width n)
  · rfl

/-- A padded decimal is read back if the width is the most that is read. -/
theorem number?_padded {width n : Nat} (hwidth : 0 < width) (h : n < 10 ^ width)
    (rest : List Char) : number? width (padded width n ++ rest) = some (n, rest) := by
  have hlength := length_padded hwidth h
  have htake : (padded width n ++ rest).take width = padded width n := List.take_left' hlength
  have hdrop : (padded width n ++ rest).drop (padded width n).length = rest :=
    List.drop_left' rfl
  have hdigits : (padded width n).takeWhile isDigit = padded width n :=
    List.takeWhile_eq_self_iff.mpr fun c ↦ isDigit_of_mem_padded
  rw [number?, htake, hdigits]
  split
  · next hnil => exact absurd hnil (padded_ne_nil width n)
  · rw [value_padded, hdrop]

end Decimal

end Rpki
