import Rpki.Proofs.Machine.InPlace
import Rpki.Proofs.Manifest.Range

/-!
# A manifest number is its value

A manifest number is made from octets, compared as twenty octets and shown as digits, and none of
the three is a calculation.  Still each of them is what it would be for the natural number that the
octets stand for, `ManifestNumber.value`.

* `ManifestNumber.ofOctets_eq_ok_iff_value`: zeros in front have no part in which number is made.
* `ManifestNumber.lt_iff_value_lt`: twenty octets are always as many, so the first difference
  decides as it does between digits.
* `ManifestNumber.text_eq_iff`: a number is shown in whole octets, so it may have one zero in front
  and never two.  `ManifestNumber.IsShownAs` says that much, and it leaves one text for each number.

Without its zeros a number has at most twenty octets, and these take 40 digits.
-/

set_option autoImplicit false

namespace Rpki

namespace ManifestNumber

/-! ## The order of numbers -/

theorem value_inj {n m : ManifestNumber} : n.value = m.value ↔ n = m := by
  refine ⟨fun h ↦ ?_, fun h ↦ congrArg value h⟩
  have hoctets : n.octets = m.octets := by
    rw [Subtype.ext_iff, octets_eq_ofBigEndian, octets_eq_ofBigEndian, h]
  cases n
  cases m
  exact congrArg mk hoctets

theorem value_lt (n : ManifestNumber) : n.value < 256 ^ 20 := by
  have hlt := Octets.bigEndian_lt n.octets.val
  rwa [n.octets.property] at hlt

/-- **The order of the octets is the order of the numbers.** -/
theorem lt_iff_value_lt {n m : ManifestNumber} : n < m ↔ n.value < m.value :=
  Octets.lt_iff_bigEndian_lt (n.octets.property.trans m.octets.property.symm)

theorem compare_eq (n m : ManifestNumber) : compare n m = compare n.value m.value := by
  change compareOfLessAndEq n m = compareOfLessAndEq n.value m.value
  simp only [compareOfLessAndEq, lt_iff_value_lt, value_inj]

/-! ## The numbers of octets -/

/-- **Octets make the number that has their value**, and no other one. -/
theorem ofOctets_eq_ok_iff_value {o : Octets} {n : ManifestNumber} :
    ofOctets o = .ok n ↔ n.value = o.bigEndian := by
  refine ⟨value_of_ofOctets, fun h ↦ ?_⟩
  obtain ⟨m, hm⟩ := exists_ofOctets_eq_ok (h ▸ n.value_lt)
  rw [hm, Except.ok.injEq, ← value_inj, value_of_ofOctets hm, h]

theorem exists_ofOctets_eq_ok_iff {o : Octets} :
    (∃ n, ofOctets o = .ok n) ↔ o.bigEndian < 2 ^ 160 := by
  have hpow : 2 ^ 160 = 256 ^ 20 := by decide
  rw [hpow]
  refine ⟨?_, exists_ofOctets_eq_ok⟩
  rintro ⟨n, hn⟩
  rw [← value_of_ofOctets hn]
  exact n.value_lt

/-- Zeros in front change neither the number nor the error. -/
theorem ofOctets_replicate_append (k : Nat) (o : Octets) :
    ofOctets (List.replicate k 0 ++ o) = ofOctets o := by
  simp only [ofOctets, Octets.significant_replicate_append]

/-! ## The text of a number -/

/-- The text is how the number is shown: a numeral that is the digit `0` for zero, and pairs of
digits of which the first is not `00` for all others. -/
structure IsShownAs (n : Nat) (s : String) : Prop where
  numeral : Hex.IsNumeral s n
  zero : n = 0 → s = "0"
  even : n ≠ 0 → Even s.length
  no_zeros : n ≠ 0 → ¬ ['0', '0'] <+: s.toList

theorem significant_eq_nil_iff {n : ManifestNumber} : n.significant = [] ↔ n.value = 0 := by
  have hiff := Octets.length_significant_le_iff (o := n.octets.val) (k := 0)
  rw [Nat.pow_zero, Nat.lt_one_iff, Nat.le_zero, List.length_eq_zero_iff] at hiff
  exact hiff

theorem isShownAs_text (n : ManifestNumber) : IsShownAs n.value n.text := by
  rw [text]
  by_cases hnil : n.significant = []
  · rw [if_pos hnil, significant_eq_nil_iff.mp hnil]
    exact ⟨Hex.isNumeral_zero, fun _ ↦ rfl, fun h ↦ absurd rfl h, fun h ↦ absurd rfl h⟩
  · have hpos : n.value ≠ 0 := mt significant_eq_nil_iff.mpr hnil
    have hsame : n.significant.bigEndian = n.value := Octets.bigEndian_significant _
    rw [if_neg hnil]
    refine ⟨hsame ▸ Hex.isNumeral_encode hnil, fun h ↦ absurd h hpos, fun _ ↦ ?_, fun _ ↦ ?_⟩
    · rw [Hex.length_encode]
      exact even_two_mul _
    · obtain ⟨b, rest, hcons⟩ := List.exists_cons_of_ne_nil hnil
      rw [hcons]
      exact Hex.not_zeros_prefix_encode (Octets.ne_zero_of_significant_eq_cons hcons) rest

namespace IsShownAs

variable {n : Nat} {s t : String}

/-- The texts have the same number of pairs, since one pair more or less is another power of 256. -/
theorem length_eq (hs : IsShownAs n s) (ht : IsShownAs n t) (hn : n ≠ 0) :
    s.length = t.length := by
  have hpairs {u : String} (hu : IsShownAs n u) : ∃ k, u.length = 2 * (k + 1) := by
    obtain ⟨k, hk⟩ := hu.even hn
    have hne : u.length ≠ 0 := fun h ↦ hu.numeral.ne_empty (String.length_eq_zero_iff.mp h)
    exact ⟨k - 1, by omega⟩
  have hlt {u v : String} (hu : IsShownAs n u) (hv : IsShownAs n v) (hlength : 2 ≤ u.length) :
      u.length - 2 < v.length :=
    (Nat.pow_lt_pow_iff_right (by decide)).mp
      (Nat.lt_of_le_of_lt (hu.numeral.le hlength (hu.no_zeros hn)) hv.numeral.lt)
  -- The shorter text holds the number, and the longer one would not need its first pair for it.
  obtain ⟨i, hi⟩ := hpairs hs
  obtain ⟨j, hj⟩ := hpairs ht
  have hij := hlt hs ht (by omega)
  have hji := hlt ht hs (by omega)
  omega

theorem eq (hs : IsShownAs n s) (ht : IsShownAs n t) : s = t := by
  by_cases hn : n = 0
  · rw [hs.zero hn, ht.zero hn]
  · exact hs.numeral.eq_of_length_eq ht.numeral (hs.length_eq ht hn)

end IsShownAs

/-- **There is one text that a number can be shown as.** -/
theorem text_eq_iff {n : ManifestNumber} {s : String} : n.text = s ↔ IsShownAs n.value s :=
  ⟨fun h ↦ h ▸ n.isShownAs_text, fun h ↦ n.isShownAs_text.eq h⟩

example : (ofNat 0).text = "0" ∧ (ofNat 5).text = "05" ∧ (ofNat 0x100).text = "0100" := by
  decide +kernel

theorem text_inj {n m : ManifestNumber} : n.text = m.text ↔ n = m := by
  refine ⟨fun h ↦ ?_, fun h ↦ congrArg text h⟩
  have hm := m.isShownAs_text.numeral
  rw [← h] at hm
  exact value_inj.mp (n.isShownAs_text.numeral.unique hm)

/-- There is room for all digits of a number in a buffer of 40 octets. -/
theorem exists_encodeInto_significant (n : ManifestNumber) :
    ∃ written, Hex.encodeInto n.significant (Machine.zeros 40).val =
      some (Hex.encode n.significant, written) := by
  have hle := n.length_significant_le
  exact ⟨_, Hex.encodeInto_eq_some (by rw [Machine.length_zeros]; omega)⟩

/-! ## Numbers -/

/-- **A manifest number is faithful to its value.**  Octets make a number exactly if their value is
below 2¹⁶⁰, and then it is the number with this value, whatever zeros there are in front.  Numbers
are compared as their values are.  A number is shown as the only numeral of its value that is `0` or
has pairs of digits without `00` in front, so numbers that are shown alike are the same, and a
buffer of 40 octets has room for it. -/
theorem value_is_faithful :
    (∀ o : Octets,
        ((∃ n, ofOctets o = .ok n) ↔ o.bigEndian < 2 ^ 160) ∧
          (∀ n, ofOctets o = .ok n ↔ n.value = o.bigEndian) ∧
          ∀ k, ofOctets (List.replicate k 0 ++ o) = ofOctets o) ∧
      (∀ n m : ManifestNumber,
        (n < m ↔ n.value < m.value) ∧ compare n m = compare n.value m.value ∧
          (n.text = m.text ↔ n = m)) ∧
      ∀ n : ManifestNumber,
        (∀ s, n.text = s ↔ IsShownAs n.value s) ∧ Machine.numberText n = some n.text ∧
          ∃ written, Hex.encodeInto n.significant (Machine.zeros 40).val =
            some (Hex.encode n.significant, written) := by
  refine ⟨fun o ↦ ⟨exists_ofOctets_eq_ok_iff, fun n ↦ ofOctets_eq_ok_iff_value,
      fun k ↦ ofOctets_replicate_append k o⟩,
    fun n m ↦ ⟨lt_iff_value_lt, compare_eq n m, text_inj⟩, fun n ↦ ?_⟩
  exact ⟨fun s ↦ text_eq_iff, Machine.numberText_eq n, n.exists_encodeInto_significant⟩

end ManifestNumber

end Rpki
