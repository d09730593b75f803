import Mathlib.Order.Bounds.Basic
import Rpki.Proofs.Der.Integer
import Rpki.Proofs.Manifest.Number

/-!
# Manifest numbers are the INTEGERs below 2¹⁶⁰

An INTEGER may have any number of octets and either sign, a manifest number has twenty octets and
none.  Between the two lies the number that both stand for, which decides everything
(`ManifestNumber.integer_correspondence`): what is negative is refused as such, what does not fit is
refused with the number of octets it would take, and the rest are the manifest numbers, each of
them with one INTEGER.

Zeros in front are what the two sides disagree about.  An INTEGER has at most one of them, a number
as many as it takes to be twenty octets long.  So numbers are compared without them:
`Octets.bigEndian_significant` says that they carry no value, and
`Octets.isLeast_length_significant` that without them there is no octet too many.
-/

set_option autoImplicit false

namespace Rpki

/-! ## Zeros in front -/

namespace Octets

theorem bigEndian_significant (o : Octets) : (significant o).bigEndian = o.bigEndian := by
  induction o with
  | nil => rfl
  | cons b rest ih =>
    by_cases hb : b = 0
    · rw [hb, significant_cons_zero, ih, bigEndian_cons, UInt8.toNat_zero, Nat.zero_mul,
        Nat.zero_add]
    · rw [significant_cons_of_ne hb]

/-- **Without the zeros in front there are as few octets as can hold the number.** -/
theorem isLeast_length_significant (o : Octets) :
    IsLeast {k | o.bigEndian < 256 ^ k} o.significant.length := by
  rw [← bigEndian_significant o]
  refine ⟨bigEndian_lt _, fun k hk ↦ ?_⟩
  cases h : o.significant with
  | nil => exact Nat.zero_le k
  | cons b rest =>
    have hb : b.toNat ≠ 0 := fun hzero ↦
      ne_zero_of_significant_eq_cons h (UInt8.toNat_inj.mp hzero)
    have hlt : bigEndian (b :: rest) < 256 ^ k := h ▸ hk
    have hle : 256 ^ rest.length ≤ bigEndian (b :: rest) := by
      rw [bigEndian_cons]
      exact Nat.le_add_right_of_le (Nat.le_mul_of_pos_left _ (Nat.pos_of_ne_zero hb))
    exact (Nat.pow_lt_pow_iff_right (by decide)).mp (Nat.lt_of_le_of_lt hle hlt)

theorem length_significant_le_iff {o : Octets} {k : Nat} :
    o.significant.length ≤ k ↔ o.bigEndian < 256 ^ k := by
  obtain ⟨hlt, hleast⟩ := isLeast_length_significant o
  refine ⟨fun h ↦ ?_, fun h ↦ hleast h⟩
  exact Nat.lt_of_lt_of_le hlt (Nat.pow_le_pow_right (by decide) h)

end Octets

/-! ## The sign -/

namespace Der.Integer

theorem value_of_isNegative {i : Integer} (h : i.isNegative = true) : i.value < 0 := by
  have hlt : (i.octets.bigEndian : Int) < Nat.pow 256 i.octets.length :=
    Int.ofNat_lt.mpr (Octets.bigEndian_lt i.octets)
  rw [value, if_pos h]
  omega

theorem value_of_not_isNegative {i : Integer} (h : ¬ i.isNegative = true) :
    i.value = i.octets.bigEndian := by
  rw [value, if_neg h]

/-- The first bit says whether the number is negative. -/
theorem value_lt_zero_iff {i : Integer} : i.value < 0 ↔ i.isNegative = true := by
  refine ⟨fun h ↦ ?_, value_of_isNegative⟩
  by_contra hsign
  rw [value_of_not_isNegative hsign] at h
  omega

end Der.Integer

/-! ## Numbers -/

namespace ManifestNumber

theorem value_of_ofOctets {o : Octets} {n : ManifestNumber} (h : ofOctets o = .ok n) :
    n.value = o.bigEndian := by
  rw [value, ← Octets.bigEndian_significant, ← Octets.bigEndian_significant o,
    ofOctets_eq_ok_iff.mp h, significant]

/-- The octets of a number are its digits to base 256. -/
theorem octets_eq_ofBigEndian (n : ManifestNumber) :
    n.octets.val = Octets.ofBigEndian 20 n.value := by
  have hdigits := Octets.ofBigEndian_bigEndian n.octets.val
  rw [n.octets.property] at hdigits
  exact hdigits.symm

theorem exists_ofOctets_eq_ok {o : Octets} (h : o.bigEndian < 256 ^ 20) :
    ∃ n, ofOctets o = .ok n := by
  rw [ofOctets, dif_pos (Octets.length_significant_le_iff.mpr h)]
  exact ⟨_, rfl⟩

/-- **What does not fit is refused with the number of octets that it takes.** -/
theorem ofOctets_eq_numberTooLong_iff {o : Octets} {k : Nat} :
    ofOctets o = .error (.numberTooLong k) ↔
      256 ^ 20 ≤ o.bigEndian ∧ IsLeast {k | o.bigEndian < 256 ^ k} k := by
  have hleast := Octets.isLeast_length_significant o
  by_cases hlength : o.significant.length ≤ 20
  · have hlt := Octets.length_significant_le_iff.mp hlength
    simp only [ofOctets, dif_pos hlength, reduceCtorEq, false_iff, not_and]
    exact fun hle ↦ absurd hle (Nat.not_le.mpr hlt)
  · have hle := Nat.not_lt.mp (mt Octets.length_significant_le_iff.mpr hlength)
    rw [ofOctets, dif_neg hlength]
    constructor
    · intro h
      obtain rfl := SemanticError.numberTooLong.inj (Except.error.inj h)
      exact ⟨hle, hleast⟩
    · intro h
      rw [hleast.unique h.2]

theorem ofOctets_ne_negativeNumber (o : Octets) : ofOctets o ≠ .error .negativeNumber := by
  rw [ofOctets]
  split
  · simp
  · simp

/-! ## INTEGERs -/

theorem ofInteger_eq_negativeNumber_iff {i : Der.Integer} :
    ofInteger i = .error .negativeNumber ↔ i.value < 0 := by
  rw [Der.Integer.value_lt_zero_iff, ofInteger]
  by_cases hsign : i.isNegative = true
  · rw [if_pos hsign]
    exact ⟨fun _ ↦ hsign, fun _ ↦ rfl⟩
  · rw [if_neg hsign]
    exact ⟨fun h ↦ absurd h (ofOctets_ne_negativeNumber _), fun h ↦ absurd h hsign⟩

theorem ofInteger_eq_numberTooLong_iff {i : Der.Integer} {k : Nat} :
    ofInteger i = .error (.numberTooLong k) ↔
      2 ^ 160 ≤ i.value ∧ IsLeast {k : Nat | i.value < 256 ^ k} k := by
  by_cases hsign : i.isNegative = true
  · have hneg := Der.Integer.value_of_isNegative hsign
    simp only [ofInteger, if_pos hsign, Except.error.injEq, reduceCtorEq, false_iff, not_and]
    exact fun hle ↦ by omega
  · have hcast (k : Nat) : (i.octets.bigEndian : Int) < 256 ^ k ↔ i.octets.bigEndian < 256 ^ k := by
      norm_cast
    have hbound : 256 ^ 20 ≤ i.octets.bigEndian ↔ (2 ^ 160 : Int) ≤ i.octets.bigEndian := by
      omega
    simp only [Der.Integer.value_of_not_isNegative hsign, ofInteger, if_neg hsign,
      ofOctets_eq_numberTooLong_iff, hbound, hcast]

theorem exists_ofInteger_eq_ok {i : Der.Integer} (hnonneg : 0 ≤ i.value)
    (hlt : i.value < 2 ^ 160) : ∃ n, ofInteger i = .ok n ∧ n.value = i.value := by
  have hsign : ¬ i.isNegative = true := by
    rw [← Der.Integer.value_lt_zero_iff]
    omega
  rw [Der.Integer.value_of_not_isNegative hsign] at hlt ⊢
  have hfits : i.octets.bigEndian < 256 ^ 20 := by omega
  obtain ⟨n, hn⟩ := exists_ofOctets_eq_ok hfits
  refine ⟨n, ?_, congrArg Nat.cast (value_of_ofOctets hn)⟩
  rw [ofInteger, if_neg hsign, hn]

/-- **Manifest numbers are the INTEGERs from 0 to 2¹⁶⁰ − 1.**  The number that an INTEGER stands
for says what becomes of it.  No two of them become the same manifest number, since the number
gives back its content, and no manifest number is left out. -/
theorem integer_correspondence {s : Der.Sequence} {position : Nat} {content : Octets}
    (h : s[position]? = some ⟨.integer, false, content⟩) :
    (∀ i, s.integer position = .ok i →
      i.octets = content ∧
        (ofInteger i = .error .negativeNumber ↔ i.value < 0) ∧
        (∀ k, ofInteger i = .error (.numberTooLong k) ↔
          2 ^ 160 ≤ i.value ∧ IsLeast {k : Nat | i.value < 256 ^ k} k) ∧
        (0 ≤ i.value → i.value < 2 ^ 160 →
          ∃ n, ofInteger i = .ok n ∧ n.octets.val = Octets.ofBigEndian 20 i.value.toNat ∧
            n.content = content)) ∧
      ∀ n : ManifestNumber, n.content = content →
        ∃ i, s.integer position = .ok i ∧ ofInteger i = .ok n := by
  refine ⟨fun i hi ↦ ?_, fun n hn ↦ exists_integer_iff.mpr (hn ▸ h)⟩
  obtain ⟨content', hget, hread⟩ := Der.Sequence.contentAt_eq_ok_iff.mp hi
  obtain rfl : content' = content :=
    (Der.Element.mk.inj (Option.some.inj (hget.symm.trans h))).2.2
  have hoctets : i.octets = content' := Der.Integer.read?_eq_some_iff.mp hread
  refine ⟨hoctets, ofInteger_eq_negativeNumber_iff, fun k ↦ ofInteger_eq_numberTooLong_iff,
    fun hnonneg hlt ↦ ?_⟩
  obtain ⟨n, hn, hvalue⟩ := exists_ofInteger_eq_ok hnonneg hlt
  refine ⟨n, hn, ?_, ?_⟩
  · rw [octets_eq_ofBigEndian, ← hvalue, Int.toNat_natCast]
  · rw [← hoctets, ofInteger_eq_ok_iff.mp hn]

/-- The largest manifest number, whose INTEGER has a zero in front, and the INTEGER behind it, which
takes one octet more. -/
theorem integer_correspondence_largest :
    let full : Octets := 0 :: List.replicate 20 0xFF
    let longer : Octets := 1 :: List.replicate 20 0
    let s : Der.Sequence := [⟨.integer, false, full⟩, ⟨.integer, false, longer⟩]
    let i : Der.Integer := ⟨full, by decide⟩
    let j : Der.Integer := ⟨longer, by decide⟩
    (s[0]? = some ⟨.integer, false, full⟩ ∧ s.integer 0 = .ok i ∧ 0 ≤ i.value ∧
        i.value < 2 ^ 160 ∧ ∃ n, ofInteger i = .ok n ∧ n.content = full) ∧
      s[1]? = some ⟨.integer, false, longer⟩ ∧ s.integer 1 = .ok j ∧
        ofInteger j = .error (.numberTooLong 21) ∧ IsLeast {k : Nat | j.value < 256 ^ k} 21 := by
  intro full longer s i j
  have hfull : s[0]? = some ⟨.integer, false, full⟩ := rfl
  have hlonger : s[1]? = some ⟨.integer, false, longer⟩ := rfl
  have hi : s.integer 0 = .ok i := by decide +kernel +zetaReduce
  have hj : s.integer 1 = .ok j := by decide +kernel +zetaReduce
  have hnonneg : 0 ≤ i.value := by decide +kernel +zetaReduce
  have hlt : i.value < 2 ^ 160 := by decide +kernel +zetaReduce
  have hlong : ofInteger j = .error (.numberTooLong 21) := by decide +kernel +zetaReduce
  obtain ⟨-, -, -, hmade⟩ := (integer_correspondence hfull).1 i hi
  obtain ⟨-, -, htoo, -⟩ := (integer_correspondence hlonger).1 j hj
  obtain ⟨n, hn, -, hcontent⟩ := hmade hnonneg hlt
  exact ⟨⟨hfull, hi, hnonneg, hlt, n, hn, hcontent⟩, hlonger, hj, hlong, ((htoo 21).mp hlong).2⟩

end ManifestNumber

end Rpki
