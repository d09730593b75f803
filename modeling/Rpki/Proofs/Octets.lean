import Mathlib.Data.Nat.Basic
import Mathlib.Tactic.Ring
import Rpki.Octets

/-!
# Numbers and texts as octets

Every format of this library writes numbers in a fixed width and texts in UTF-8, and wants each of
them to have one spelling.  For that the writer and the reader have to be inverse in both
directions, and this file has both for each pair.

* `bigEndian_ofBigEndian` and `ofBigEndian_bigEndian`, and the same for `littleEndian`: a number
  below `256 ^ width` survives being written in that width, and octets survive being read as a
  number and written in as many octets as they were.
* `lt_iff_bigEndian_lt`: octets of the same length are in the order of the numbers that they are.
* `toString?_eq_some_iff`: the octets that are a text are those that are written for it.
* `ofString_ascii` and `ascii_ofString`: for ASCII, reading octet by octet is reading UTF-8.
-/

set_option autoImplicit false

namespace Rpki

/-- What holds of every number below 256 holds of every octet. -/
theorem forall_octet {p : UInt8 → Prop} (h : ∀ n : Fin 256, p (UInt8.ofNat n.val)) (b : UInt8) :
    p b := by
  have hb := h ⟨b.toNat, b.toNat_lt⟩
  rwa [UInt8.ofNat_toNat] at hb

namespace Octets

/-! ## Most significant octet first -/

theorem bigEndian_cons (b : UInt8) (rest : Octets) :
    bigEndian (b :: rest) = b.toNat * 256 ^ rest.length + bigEndian rest := rfl

theorem ofBigEndian_succ (width n : Nat) :
    ofBigEndian (width + 1) n = UInt8.ofNat (n / 256 ^ width) :: ofBigEndian width n := rfl

theorem bigEndian_lt (o : Octets) : bigEndian o < 256 ^ o.length := by
  induction o with
  | nil => simp [bigEndian]
  | cons b rest ih =>
    have hb : b.toNat + 1 ≤ 256 := b.toNat_lt
    calc bigEndian (b :: rest) < b.toNat * 256 ^ rest.length + 256 ^ rest.length := by
          rw [bigEndian_cons]; omega
      _ = (b.toNat + 1) * 256 ^ rest.length := by ring
      _ ≤ 256 * 256 ^ rest.length := Nat.mul_le_mul_right _ hb
      _ = 256 ^ (b :: rest).length := by rw [List.length_cons]; ring

/-- **Octets are in the order of their numbers**, if they are as many. -/
theorem lt_iff_bigEndian_lt {p q : Octets} (h : p.length = q.length) :
    p < q ↔ p.bigEndian < q.bigEndian := by
  induction p generalizing q with
  | nil =>
    obtain rfl := List.length_eq_zero_iff.mp h.symm
    simp [bigEndian]
  | cons a p ih =>
    cases q with
    | nil => exact absurd h (Nat.succ_ne_zero _)
    | cons b q =>
      have hlength : p.length = q.length := Nat.succ.inj h
      have hp := bigEndian_lt p
      have hq := bigEndian_lt q
      rw [hlength] at hp
      rw [List.cons_lt_cons_iff, ih hlength, bigEndian_cons, bigEndian_cons, hlength,
        UInt8.lt_iff_toNat_lt, ← UInt8.toNat_inj]
      -- What is behind the first octet is less than a unit of it.
      rcases Nat.lt_trichotomy a.toNat b.toNat with hlt | heq | hgt
      · have hle := Nat.mul_le_mul_right (256 ^ q.length) (Nat.succ_le_of_lt hlt)
        rw [Nat.succ_mul] at hle
        exact iff_of_true (.inl hlt) (by omega)
      · rw [heq]
        omega
      · have hle := Nat.mul_le_mul_right (256 ^ q.length) (Nat.succ_le_of_lt hgt)
        rw [Nat.succ_mul] at hle
        exact iff_of_false (by omega) (by omega)

theorem bigEndian_ofBigEndian_mod (width n : Nat) :
    bigEndian (ofBigEndian width n) = n % 256 ^ width := by
  induction width with
  | zero => simp [ofBigEndian, bigEndian, Nat.mod_one]
  | succ width ih =>
    have hmod : n % 256 ^ (width + 1) =
        n % 256 ^ width + 256 ^ width * (n / 256 ^ width % 256) := by
      rw [Nat.pow_succ, Nat.mod_mul]
    rw [ofBigEndian_succ, bigEndian_cons, ih, length_ofBigEndian, UInt8.toNat_ofNat', hmod]
    ring

/-- A number that fits into the width survives being written in it. -/
theorem bigEndian_ofBigEndian {width n : Nat} (h : n < 256 ^ width) :
    bigEndian (ofBigEndian width n) = n := by
  rw [bigEndian_ofBigEndian_mod, Nat.mod_eq_of_lt h]

/-- The digits of a number do not depend on what lies above them. -/
theorem ofBigEndian_add_mul (width k n : Nat) :
    ofBigEndian width (k * 256 ^ width + n) = ofBigEndian width n := by
  induction width generalizing k with
  | zero => rfl
  | succ width ih =>
    have hassoc : k * 256 ^ (width + 1) = k * 256 * 256 ^ width := by ring
    have hdigit : (k * 256 * 256 ^ width + n) / 256 ^ width = k * 256 + n / 256 ^ width := by
      rw [Nat.add_comm, Nat.add_mul_div_right _ _ (Nat.pow_pos (by decide)), Nat.add_comm]
    rw [ofBigEndian_succ, ofBigEndian_succ, hassoc, ih, hdigit]
    refine congrArg (· :: _) (UInt8.toNat_inj.mp ?_)
    simp only [UInt8.toNat_ofNat']
    omega

/-- Octets are what is written for their number in their own width. -/
theorem ofBigEndian_bigEndian (o : Octets) : ofBigEndian o.length (bigEndian o) = o := by
  induction o with
  | nil => rfl
  | cons b rest ih =>
    have hdigit : (b.toNat * 256 ^ rest.length + bigEndian rest) / 256 ^ rest.length = b.toNat := by
      rw [Nat.add_comm, Nat.add_mul_div_right _ _ (Nat.pow_pos (by decide)),
        Nat.div_eq_of_lt (bigEndian_lt rest), Nat.zero_add]
    rw [List.length_cons, bigEndian_cons, ofBigEndian_succ, ofBigEndian_add_mul, hdigit, ih,
      UInt8.ofNat_toNat]

/-! ## Least significant octet first -/

theorem littleEndian_lt (o : Octets) : littleEndian o < 256 ^ o.length := by
  induction o with
  | nil => simp [littleEndian]
  | cons b rest ih =>
    have hb : b.toNat < 256 := b.toNat_lt
    rw [littleEndian, List.length_cons, Nat.pow_succ]
    omega

/-- A number that fits into the width survives being written in it. -/
theorem littleEndian_ofLittleEndian {width n : Nat} (h : n < 256 ^ width) :
    littleEndian (ofLittleEndian width n) = n := by
  induction width generalizing n with
  | zero => rw [Nat.pow_zero] at h; rw [ofLittleEndian, littleEndian]; omega
  | succ width ih =>
    have hdiv : n / 256 < 256 ^ width := by rw [Nat.pow_succ] at h; omega
    rw [ofLittleEndian, littleEndian, ih hdiv, UInt8.toNat_ofNat']
    omega

/-- Octets are what is written for their number in their own width. -/
theorem ofLittleEndian_littleEndian (o : Octets) :
    ofLittleEndian o.length (littleEndian o) = o := by
  induction o with
  | nil => rfl
  | cons b rest ih =>
    have hb : b.toNat < 256 := b.toNat_lt
    have hlow : UInt8.ofNat (b.toNat + 256 * littleEndian rest) = b := by
      refine UInt8.toNat_inj.mp ?_
      rw [UInt8.toNat_ofNat']
      omega
    have hhigh : (b.toNat + 256 * littleEndian rest) / 256 = littleEndian rest := by omega
    rw [List.length_cons, littleEndian, ofLittleEndian, hlow, hhigh, ih]

/-! ## Text -/

/-- A text has no more octets than its size says, and no fewer. -/
theorem length_ofString (s : String) : (ofString s).length = s.utf8ByteSize := rfl

/-- **The octets that are a text are those that are written for it.** -/
theorem toString?_eq_some_iff {o : Octets} {s : String} :
    o.toString? = some s ↔ o = ofString s := by
  constructor
  · intro h
    simp only [toString?, String.fromUTF8?, Option.dite_none_right_eq_some, Option.some.injEq] at h
    obtain ⟨-, rfl⟩ := h
    rfl
  · rintro rfl
    have hvalid : (⟨(ofString s).toArray⟩ : ByteArray).IsValidUTF8 := s.isValidUTF8
    rw [toString?, String.fromUTF8?, dif_pos hvalid]
    rfl

/-! ## ASCII -/

/-- The octets of a text, character by character. -/
theorem ofString_eq_flatMap (s : String) : ofString s = s.toList.flatMap String.utf8EncodeChar := by
  rw [ofString, String.toUTF8_eq_toByteArray, ← String.utf8Encode_toList]
  simp [List.utf8Encode]

theorem toNat_charOfNat_of_lt {n : Nat} (h : n < 0x80) : (Char.ofNat n).toNat = n := by
  have hvalid : n.isValidChar := Or.inl (by omega)
  rw [Char.ofNat, dif_pos hvalid]
  rfl

/-- An ASCII character takes one octet, which has its number. -/
theorem utf8EncodeChar_of_lt {c : Char} (h : c.toNat < 0x80) :
    String.utf8EncodeChar c = [UInt8.ofNat c.toNat] := by
  have hsize : c.utf8Size = 1 := by
    rw [Char.utf8Size_eq_one_iff, UInt32.le_iff_toNat_le]
    exact Nat.le_of_lt_succ h
  rw [String.utf8EncodeChar_eq_singleton hsize]
  rfl

/-- ASCII octets are written for the text that they are read as octet by octet. -/
theorem ofString_ascii {o : Octets} (h : ∀ b ∈ o, b < 0x80) : ofString o.ascii = o := by
  rw [ofString_eq_flatMap, ascii, String.toList_ofList]
  induction o with
  | nil => rfl
  | cons b rest ih =>
    have hb : b.toNat < 0x80 := UInt8.lt_iff_toNat_lt.mp (h b (by simp))
    have hchar : (Char.ofNat b.toNat).toNat = b.toNat := toNat_charOfNat_of_lt hb
    rw [List.map_cons, List.flatMap_cons, utf8EncodeChar_of_lt (by rw [hchar]; exact hb), hchar,
      UInt8.ofNat_toNat, List.singleton_append, ih fun b hb ↦ h b (List.mem_cons_of_mem _ hb)]

/-- An ASCII text has ASCII octets. -/
theorem lt_of_mem_ofString {s : String} (h : ∀ c ∈ s.toList, c.toNat < 0x80) :
    ∀ b ∈ ofString s, b < 0x80 := by
  intro b hb
  rw [ofString_eq_flatMap, List.mem_flatMap] at hb
  obtain ⟨c, hc, hb⟩ := hb
  rw [utf8EncodeChar_of_lt (h c hc), List.mem_singleton] at hb
  have hlt := h c hc
  rw [hb, UInt8.lt_iff_toNat_lt, UInt8.toNat_ofNat_of_lt' (Nat.lt_trans hlt (by decide))]
  exact hlt

/-- An ASCII text is read octet by octet from what is written for it. -/
theorem ascii_ofString {s : String} (h : ∀ c ∈ s.toList, c.toNat < 0x80) :
    (ofString s).ascii = s := by
  have hback : ofString (ofString s).ascii = ofString s := ofString_ascii (lt_of_mem_ofString h)
  have hread := toString?_eq_some_iff.mpr hback.symm
  rw [toString?_eq_some_iff.mpr rfl] at hread
  exact (Option.some.inj hread).symm

/-- Text that is read from ASCII octets is ASCII. -/
theorem toNat_lt_of_mem_ascii {o : Octets} (h : ∀ b ∈ o, b < 0x80) :
    ∀ c ∈ o.ascii.toList, c.toNat < 0x80 := by
  intro c hc
  rw [ascii, String.toList_ofList, List.mem_map] at hc
  obtain ⟨b, hb, rfl⟩ := hc
  have hlt : b.toNat < 0x80 := UInt8.lt_iff_toNat_lt.mp (h b hb)
  rw [toNat_charOfNat_of_lt hlt]
  exact hlt

end Octets

end Rpki
