import Rpki.Proofs.Der.Content
import Rpki.Proofs.Der.Sequence

/-!
# Every number is one INTEGER

`Integer.ofNat` is the INTEGER of a number that is not negative: its digits to base 256, in as many
octets as leave the first bit clear and in no more.  That is the only INTEGER with the value
(`Integer.eq_ofNat_iff`), so whoever reads an INTEGER and keeps its value has lost nothing.

The number of octets is that of the digits of the doubled number, because of the bit that is left
clear.  So both what an INTEGER demands of its octets and what `Integer.width` counts are bounds on
twice the value.
-/

set_option autoImplicit false

namespace Rpki

/-! ## Digits in front -/

namespace Octets

theorem bigEndian_cons_div (b : UInt8) (rest : Octets) :
    bigEndian (b :: rest) / 256 ^ rest.length = b.toNat := by
  rw [bigEndian_cons, Nat.add_comm, Nat.add_mul_div_right _ _ (Nat.pow_pos (by decide)),
    Nat.div_eq_of_lt (bigEndian_lt rest), Nat.zero_add]

theorem bigEndian_cons_cons_div (a b : UInt8) (rest : Octets) :
    bigEndian (a :: b :: rest) / 256 ^ rest.length = 256 * a.toNat + b.toNat := by
  have hsplit : bigEndian (a :: b :: rest) =
      bigEndian (b :: rest) + 256 * a.toNat * 256 ^ rest.length := by
    rw [bigEndian_cons, List.length_cons]
    ring
  rw [hsplit, Nat.add_mul_div_right _ _ (Nat.pow_pos (by decide)), bigEndian_cons_div,
    Nat.add_comm]

end Octets

namespace Der

namespace Integer

/-! ## The number of octets -/

/-- The number of octets of a number in two's complement. -/
def width (n : Nat) : Nat := (n.log2 + 1) / 8 + 1

theorem pow_eq (w : Nat) : 256 ^ w = 2 ^ (8 * w) := by
  rw [Nat.pow_mul]

/-- A number takes as many octets as are needed to leave its first bit clear. -/
theorem width_spec (n : Nat) :
    1 ≤ width n ∧ 2 * n < 256 ^ width n ∧ (2 ≤ width n → 256 ^ (width n - 1) ≤ 2 * n) := by
  refine ⟨Nat.le_add_left _ _, ?_, fun hwidth ↦ ?_⟩
  · calc 2 * n < 2 * 2 ^ (n.log2 + 1) := Nat.mul_lt_mul_of_pos_left Nat.lt_log2_self (by decide)
      _ = 2 ^ (n.log2 + 2) := by ring
      _ ≤ 256 ^ width n := by
        rw [pow_eq]
        exact Nat.pow_le_pow_right (by decide) (by rw [width]; omega)
  · rw [width] at hwidth
    have hne : n ≠ 0 := by
      rintro rfl
      rw [Nat.log2_zero] at hwidth
      omega
    calc 256 ^ (width n - 1) ≤ 2 ^ (n.log2 + 1) := by
          rw [pow_eq]
          exact Nat.pow_le_pow_right (by decide) (by rw [width]; omega)
      _ = 2 * 2 ^ n.log2 := Nat.pow_succ'
      _ ≤ 2 * n := Nat.mul_le_mul_left 2 (Nat.log2_self_le hne)

/-- There is no other number of octets that does. -/
theorem width_eq {n w : Nat} (hpos : 1 ≤ w) (hlt : 2 * n < 256 ^ w)
    (hle : 2 ≤ w → 256 ^ (w - 1) ≤ 2 * n) : width n = w := by
  obtain ⟨hpos', hlt', hle'⟩ := width_spec n
  -- The smaller of two such numbers of octets would have room for what needs the larger one.
  have hnot {v v' : Nat} (hv : 1 ≤ v) (hvlt : 2 * n < 256 ^ v)
      (hvle : 2 ≤ v' → 256 ^ (v' - 1) ≤ 2 * n) : ¬ v < v' := by
    intro h
    have hmono : 256 ^ v ≤ 256 ^ (v' - 1) := Nat.pow_le_pow_right (n := 256) (by decide) (by omega)
    have hbound := hvle (by omega)
    omega
  have h1 := hnot hpos' hlt' hle
  have h2 := hnot hpos hlt hle'
  omega

/-! ## What an INTEGER demands -/

/-- The first bit is clear exactly if twice the number fits. -/
theorem headD_lt_iff {o : Octets} :
    o.headD 0 < 0x80 ↔ o = [] ∨ 2 * o.bigEndian < 256 ^ o.length := by
  cases o with
  | nil => decide
  | cons b rest =>
    have hdiv := Octets.bigEndian_cons_div b rest
    have hlt := Nat.div_lt_iff_lt_mul (k := 256 ^ rest.length) (x := Octets.bigEndian (b :: rest))
      (y := 128) (Nat.pow_pos (by decide))
    rw [hdiv] at hlt
    have hfirst : b < 0x80 ↔ b.toNat < 128 := UInt8.lt_iff_toNat_lt
    rw [List.headD_cons, hfirst, hlt, List.length_cons, Nat.pow_succ]
    simp only [reduceCtorEq, false_or]
    omega

/-- Of the octets of a number that is not negative, none could be left out exactly if twice the
number needs all of them. -/
theorem isShortest_iff {o : Octets} (hsign : o.headD 0 < 0x80) :
    isShortest o = true ↔
      1 ≤ o.length ∧ (2 ≤ o.length → 256 ^ (o.length - 1) ≤ 2 * o.bigEndian) := by
  match o with
  | [] => simp [isShortest]
  | [b] => simp [isShortest]
  | a :: b :: rest =>
    have hdiv := Octets.bigEndian_cons_cons_div a b rest
    have hle := Nat.le_div_iff_mul_le (k := 256 ^ rest.length) (x := 128)
      (y := Octets.bigEndian (a :: b :: rest)) (Nat.pow_pos (by decide))
    rw [hdiv] at hle
    have hlength : (a :: b :: rest).length - 1 = rest.length + 1 := rfl
    have hgoal : 256 ^ (rest.length + 1) ≤ 2 * Octets.bigEndian (a :: b :: rest) ↔
        128 ≤ 256 * a.toNat + b.toNat := by
      rw [hle, Nat.pow_succ]
      omega
    have ha : a.toNat < 128 := UInt8.lt_iff_toNat_lt.mp hsign
    have hzero : a = 0 ↔ a.toNat = 0 := UInt8.toNat_inj.symm
    have hfull : a ≠ 0xFF := by
      rintro rfl
      exact absurd ha (by decide)
    have hb : b < 0x80 ↔ b.toNat < 128 := UInt8.lt_iff_toNat_lt
    rw [hlength, hgoal]
    simp only [isShortest, hfull, Bool.not_eq_true', Bool.or_eq_false_iff, Bool.and_eq_false_iff,
      beq_eq_false_iff_ne, ne_eq, not_false_eq_true, true_or, and_true, decide_eq_false_iff_not,
      hzero, hb, List.length_cons]
    omega

/-! ## Numbers -/

/-- The octets of a number have as many as the number takes, and leave the first bit clear. -/
theorem headD_ofBigEndian_lt (n : Nat) : (Octets.ofBigEndian (width n) n).headD 0 < 0x80 := by
  obtain ⟨-, hlt, -⟩ := width_spec n
  have hvalue : (Octets.ofBigEndian (width n) n).bigEndian = n :=
    Octets.bigEndian_ofBigEndian (by omega)
  rw [headD_lt_iff, hvalue, Octets.length_ofBigEndian]
  exact Or.inr hlt

/-- The INTEGER of a number that is not negative. -/
def ofNat (n : Nat) : Integer where
  octets := Octets.ofBigEndian (width n) n
  shortest := by
    obtain ⟨hpos, hlt, hle⟩ := width_spec n
    have hvalue : (Octets.ofBigEndian (width n) n).bigEndian = n :=
      Octets.bigEndian_ofBigEndian (by omega)
    rw [isShortest_iff (headD_ofBigEndian_lt n), hvalue, Octets.length_ofBigEndian]
    exact ⟨hpos, hle⟩

theorem isNegative_iff {i : Integer} : i.isNegative = true ↔ ¬ i.octets.headD 0 < 0x80 := by
  rw [isNegative, decide_eq_true_eq, UInt8.not_lt]

theorem value_ofNat (n : Nat) : (ofNat n).value = n := by
  have hsign : ¬ (ofNat n).isNegative = true := by
    rw [isNegative_iff, not_not]
    exact headD_ofBigEndian_lt n
  obtain ⟨-, hlt, -⟩ := width_spec n
  rw [value, if_neg hsign]
  exact congrArg Nat.cast (Octets.bigEndian_ofBigEndian (by omega))

/-- **No other INTEGER has the value of a number.** -/
theorem eq_ofNat_iff {i : Integer} {n : Nat} : i = ofNat n ↔ i.value = n := by
  refine ⟨fun h ↦ h ▸ value_ofNat n, fun h ↦ ?_⟩
  obtain ⟨o, hshort⟩ := i
  have hbound := Octets.bigEndian_lt o
  rw [value] at h
  split at h
  · -- The value of octets with the first bit set is negative.
    have hcast : (o.bigEndian : Int) < Nat.pow 256 o.length := Int.ofNat_lt.mpr hbound
    dsimp only at h
    omega
  · next hsign =>
    rw [isNegative_iff, not_not] at hsign
    obtain rfl := Int.ofNat.inj h
    obtain ⟨hpos, hle⟩ := (isShortest_iff hsign).mp hshort
    obtain rfl | hlt := headD_lt_iff.mp hsign
    · exact absurd hpos (Nat.not_succ_le_zero 0)
    · have hwidth := width_eq hpos hlt hle
      have hoctets : o = Octets.ofBigEndian (width o.bigEndian) o.bigEndian := by
        rw [hwidth, Octets.ofBigEndian_bigEndian]
      simp only [ofNat, ← hoctets]

/-- **An INTEGER is read as a number of 32 bits exactly if it is the one of the number.** -/
theorem toUInt32?_eq_some_iff {i : Integer} {n : UInt32} :
    i.toUInt32? = some n ↔ i = ofNat n.toNat := by
  have hsize : (UInt32.size : Int) = 2 ^ 32 := rfl
  rw [eq_ofNat_iff, toUInt32?, hsize]
  refine ⟨fun h ↦ ?_, fun h ↦ ?_⟩
  · simp only [Option.ite_none_right_eq_some, Option.some.injEq] at h
    obtain ⟨⟨hnonneg, hlt⟩, rfl⟩ := h
    have hnat : i.value.toNat < 2 ^ 32 := by omega
    rw [UInt32.toNat_ofNat_of_lt' hnat, Int.toNat_of_nonneg hnonneg]
  · have hlt := n.toNat_lt
    rw [h, if_pos ⟨by omega, by omega⟩, Int.toNat_natCast, UInt32.ofNat_toNat]

/-- A number of 32 bits is read from a sequence exactly if the INTEGER at the position is its
own. -/
theorem exists_toUInt32?_iff {s : Sequence} {position : Nat} {n : UInt32} :
    (∃ i, s.integer position = .ok i ∧ i.toUInt32? = some n) ↔
      s[position]? = some ⟨.integer, false, (ofNat n.toNat).octets⟩ := by
  simp only [Sequence.integer, Sequence.contentAt_eq_ok_iff, toUInt32?_eq_some_iff,
    read?_eq_some_iff]
  constructor
  · rintro ⟨_, ⟨content, hget, rfl⟩, rfl⟩
    exact hget
  · exact fun hget ↦ ⟨_, ⟨_, hget, rfl⟩, rfl⟩

end Integer

end Der

end Rpki
