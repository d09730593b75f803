import Mathlib.Data.Nat.Digits.Lemmas
import Rpki.Hex
import Rpki.Proofs.Octets

/-!
# Hexadecimal text as a numeral

An octet is a digit to base 256, and the two characters it is shown as are digits to base 16.  So a
text can be read in two ways: pair by pair it is the octets again (`Hex.decode?_encode`), and as a
whole it is a numeral of the number that the octets are (`Hex.isNumeral_encode`).

`Hex.halves` stands between the octets and the characters.  What there is to say about a single
digit is decided by going through all sixteen, and what there is to say about a text is an induction
on the octets.

A numeral may have zeros in front, so a number has many of them.  Two of them still differ in
nothing but their length (`Hex.IsNumeral.eq_of_length_eq`), and `Hex.IsNumeral.lt` and
`Hex.IsNumeral.le` say how much the length leaves open.
-/

set_option autoImplicit false

namespace Rpki

namespace Hex

/-! ## Digits -/

/-- The upper case digits in the order of their values. -/
def upperDigits : List Char :=
  ['0', '1', '2', '3', '4', '5', '6', '7', '8', '9', 'A', 'B', 'C', 'D', 'E', 'F']

/-- The digit of a value below 16. -/
def upperDigit (d : Nat) : Char := upperDigits.getD d '0'

theorem upperDigit_mem : ∀ d < 16, upperDigit d ∈ upperDigits := by decide

theorem idxOf_upperDigit : ∀ d < 16, upperDigits.idxOf (upperDigit d) = d := by decide

theorem upperDigit_idxOf {c : Char} (h : c ∈ upperDigits) :
    upperDigit (upperDigits.idxOf c) = c := by
  rw [upperDigit, List.getD_eq_getElem?_getD, List.getElem?_idxOf h, Option.getD_some]

theorem digitValue?_upperDigit : ∀ d < 16, digitValue? (upperDigit d) = some d := by decide

theorem eq_zero_of_upperDigit_eq : ∀ d < 16, '0' = upperDigit d → d = 0 := by decide

/-! ## Numerals -/

/-- The text is an upper case hexadecimal numeral of the number, with any number of zeros in front.
-/
structure IsNumeral (s : String) (n : Nat) : Prop where
  ne_empty : s ≠ ""
  upper : ∀ c ∈ s.toList, c ∈ upperDigits
  /-- The digits are in positional notation, with the most significant one in front. -/
  value : Nat.ofDigits 16 (s.toList.map upperDigits.idxOf).reverse = n

theorem isNumeral_zero : IsNumeral "0" 0 := ⟨by decide, by simp [upperDigits], by decide⟩

namespace IsNumeral

variable {s t : String} {m n : Nat}

theorem unique (hm : IsNumeral s m) (hn : IsNumeral s n) : m = n := hm.value.symm.trans hn.value

theorem lt_of_mem_digits (h : IsNumeral s n) :
    ∀ d ∈ (s.toList.map upperDigits.idxOf).reverse, d < 16 := by
  intro d hd
  obtain ⟨c, hc, rfl⟩ := List.mem_map.mp (List.mem_reverse.mp hd)
  exact List.idxOf_lt_length_of_mem (h.upper c hc)

/-- Larger numbers need more digits. -/
theorem lt (h : IsNumeral s n) : n < 16 ^ s.length := by
  have hlt := Nat.ofDigits_lt_base_pow_length (by decide) h.lt_of_mem_digits
  rwa [h.value, List.length_reverse, List.length_map, String.length_toList] at hlt

/-- Smaller numbers have two zeros in front. -/
theorem le (h : IsNumeral s n) (hlength : 2 ≤ s.length) (hzeros : ¬ ['0', '0'] <+: s.toList) :
    16 ^ (s.length - 2) ≤ n := by
  have hvalue := h.value
  have hupper := h.upper
  rw [← String.length_toList] at hlength ⊢
  obtain ⟨c, tail, hcons⟩ := List.exists_cons_of_length_pos (l := s.toList) (by omega)
  rw [hcons, List.length_cons] at hlength
  obtain ⟨d, rest, rfl⟩ := List.exists_cons_of_length_pos (l := tail) (by omega)
  rw [hcons] at hvalue hupper hzeros ⊢
  have hzero {c : Char} (hc : c ∈ upperDigits) (h : upperDigits.idxOf c = 0) : '0' = c := by
    rw [← upperDigit_idxOf hc, h]
    rfl
  have hpos : 0 < upperDigits.idxOf d + 16 * upperDigits.idxOf c := by
    by_contra hboth
    obtain rfl := hzero (hupper c (by simp)) (by omega)
    obtain rfl := hzero (hupper d (by simp)) (by omega)
    exact hzeros ⟨rest, rfl⟩
  have hle := Nat.le_mul_of_pos_right (16 ^ rest.length) hpos
  rw [Nat.mul_add, ← Nat.mul_assoc] at hle
  rw [List.map_cons, List.map_cons, Nat.ofDigits_reverse_cons, Nat.ofDigits_reverse_cons,
    List.length_cons, List.length_map, Nat.pow_succ] at hvalue
  change 16 ^ rest.length ≤ n
  omega

/-- Two numerals of the same number differ in nothing but their length. -/
theorem eq_of_length_eq (hs : IsNumeral s n) (ht : IsNumeral t n) (h : s.length = t.length) :
    s = t := by
  have hback {u : String} (hu : IsNumeral u n) :
      (u.toList.map upperDigits.idxOf).map upperDigit = u.toList := by
    have hself : ∀ c ∈ u.toList, (upperDigit ∘ upperDigits.idxOf) c = id c :=
      fun c hc ↦ upperDigit_idxOf (hu.upper c hc)
    rw [List.map_map, List.map_congr_left hself, List.map_id]
  have hlength : (s.toList.map upperDigits.idxOf).reverse.length =
      (t.toList.map upperDigits.idxOf).reverse.length := by
    simpa only [List.length_reverse, List.length_map, String.length_toList] using h
  have hdigits := List.reverse_injective (Nat.ofDigits_inj_of_len_eq (by decide) hlength
    hs.lt_of_mem_digits ht.lt_of_mem_digits (hs.value.trans ht.value.symm))
  rw [← String.toList_inj, ← hback hs, ← hback ht, hdigits]

end IsNumeral

/-! ## The digits of octets -/

/-- The digits to base 16 of octets, each of which has two. -/
def halves (o : Octets) : List Nat := o.flatMap fun b ↦ [b.toNat / 16, b.toNat % 16]

theorem halves_cons (b : UInt8) (o : Octets) :
    halves (b :: o) = b.toNat / 16 :: b.toNat % 16 :: halves o := rfl

theorem length_halves (o : Octets) : (halves o).length = 2 * o.length := by
  induction o with
  | nil => rfl
  | cons b o ih => simp [halves_cons, ih, Nat.mul_succ]

theorem lt_of_mem_halves {o : Octets} {d : Nat} (h : d ∈ halves o) : d < 16 := by
  obtain ⟨b, -, hd⟩ := List.mem_flatMap.mp h
  have hb : b.toNat < 256 := b.toNat_lt
  simp only [List.mem_cons, List.not_mem_nil, or_false] at hd
  omega

/-- The digits to either base make the same number. -/
theorem ofDigits_halves (o : Octets) : Nat.ofDigits 16 (halves o).reverse = o.bigEndian := by
  induction o with
  | nil => rfl
  | cons b o ih =>
    have hpow : 16 ^ (2 * o.length) = 256 ^ o.length := by rw [Nat.pow_mul]
    have hb := Nat.div_add_mod b.toNat 16
    rw [halves_cons, Nat.ofDigits_reverse_cons, Nat.ofDigits_reverse_cons, ih, List.length_cons,
      length_halves, Nat.pow_succ, hpow, Octets.bigEndian_cons]
    calc Octets.bigEndian o + 256 ^ o.length * (b.toNat % 16) +
          256 ^ o.length * 16 * (b.toNat / 16)
        = (16 * (b.toNat / 16) + b.toNat % 16) * 256 ^ o.length + Octets.bigEndian o := by ring
      _ = b.toNat * 256 ^ o.length + Octets.bigEndian o := by rw [hb]

/-! ## The text of octets -/

theorem map_pair (b : UInt8) :
    (pair b).map (fun d ↦ Char.ofNat d.toNat) =
      [upperDigit (b.toNat / 16), upperDigit (b.toNat % 16)] :=
  forall_octet (p := fun b ↦ (pair b).map (fun d ↦ Char.ofNat d.toNat) =
    [upperDigit (b.toNat / 16), upperDigit (b.toNat % 16)]) (by decide +kernel) b

theorem toList_encode (o : Octets) : (encode o).toList = (halves o).map upperDigit := by
  rw [encode, Octets.ascii, String.toList_ofList, halves, List.map_flatMap, List.map_flatMap]
  exact congrArg (o.flatMap ·) (funext map_pair)

theorem length_flatMap_pair (o : Octets) : (o.flatMap pair).length = 2 * o.length := by
  induction o with
  | nil => rfl
  | cons b o ih =>
    simp only [List.flatMap_cons, List.length_append, List.length_cons, List.length_nil, pair, ih]
    omega

theorem length_encode (o : Octets) : (encode o).length = 2 * o.length := by
  rw [← String.length_toList, toList_encode, List.length_map, length_halves]

theorem mem_upperDigits_of_mem_encode {o : Octets} {c : Char} (h : c ∈ (encode o).toList) :
    c ∈ upperDigits := by
  rw [toList_encode, List.mem_map] at h
  obtain ⟨d, hd, rfl⟩ := h
  exact upperDigit_mem d (lt_of_mem_halves hd)

/-- There are two zeros in front only if there is an octet in front that is zero. -/
theorem not_zeros_prefix_encode {b : UInt8} (hb : b ≠ 0) (o : Octets) :
    ¬ ['0', '0'] <+: (encode (b :: o)).toList := by
  intro hzeros
  have hlt : b.toNat < 256 := b.toNat_lt
  rw [toList_encode, halves_cons, List.map_cons, List.map_cons, List.cons_prefix_cons,
    List.cons_prefix_cons] at hzeros
  have hhigh := eq_zero_of_upperDigit_eq (b.toNat / 16) (by omega) hzeros.1
  have hlow := eq_zero_of_upperDigit_eq (b.toNat % 16) (by omega) hzeros.2.1
  have hzero : b.toNat = 0 := by omega
  exact hb (UInt8.toNat_inj.mp hzero)

/-- **The octets are read back from the pairs of digits.** -/
theorem decode?_encode (o : Octets) : decode? (encode o) = some o := by
  rw [decode?, toList_encode]
  induction o with
  | nil => rfl
  | cons b o ih =>
    have hb : b.toNat < 256 := b.toNat_lt
    have hhigh := digitValue?_upperDigit (b.toNat / 16) (by omega)
    have hlow := digitValue?_upperDigit (b.toNat % 16) (by omega)
    have hsum : 16 * (b.toNat / 16) + b.toNat % 16 = b.toNat := Nat.div_add_mod _ _
    simp only [halves_cons, List.map_cons, decodeChars?, hhigh, hlow, ih, Option.bind_eq_bind,
      Option.bind_some, hsum, UInt8.ofNat_toNat, Option.pure_def]

/-- **The text of octets is a numeral of their number.** -/
theorem isNumeral_encode {o : Octets} (h : o ≠ []) : IsNumeral (encode o) o.bigEndian where
  ne_empty := by
    intro hempty
    have hlength := length_encode o
    rw [hempty] at hlength
    exact h (List.length_eq_zero_iff.mp (by simpa using hlength.symm))
  upper _ := mem_upperDigits_of_mem_encode
  value := by
    have hindices : ((halves o).map upperDigit).map upperDigits.idxOf = halves o := by
      have hself : ∀ d ∈ halves o, (upperDigits.idxOf ∘ upperDigit) d = id d :=
        fun d hd ↦ idxOf_upperDigit d (lt_of_mem_halves hd)
      rw [List.map_map, List.map_congr_left hself, List.map_id]
    rw [toList_encode, hindices, ofDigits_halves]

end Hex

end Rpki
