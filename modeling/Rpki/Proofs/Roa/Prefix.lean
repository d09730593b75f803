import Rpki.Proofs.Octets
import Rpki.Roa.Prefix

/-!
# Prefixes that keep the rules

A prefix keeps the rules if its parts make it again.  `Prefix.WellFormed` says what that comes to:
the address is of the family, the lengths are in order, and no bit behind the prefix is set.

* `Prefix.hostBitsClear_iff_dvd`: bits behind the end of a prefix are clear exactly if a power of
  two divides the address, read as a number.
* `Prefix.ofOctets_eq_ok_iff`: a prefix is made of sixteen octets exactly if it keeps the rules and
  its address, filled up with zeros, is these octets.  So the twelve octets that an IPv4 address
  does not have are no second spelling of anything.
* `Prefix.ofAddress_eq_ok_iff`: a prefix that is made again of its own parts is one that keeps the
  rules.
-/

set_option autoImplicit false

namespace Rpki

/-! ## Address families -/

theorem AddressFamily.ofNumber?_eq_some_iff {n : UInt16} {family : AddressFamily} :
    ofNumber? n = some family ↔ n = family.number := by
  rw [ofNumber?]
  refine ⟨fun h ↦ ?_, fun h ↦ ?_⟩
  · split at h
    · next hn =>
      obtain rfl := Option.some.inj h
      exact hn
    split at h
    · next hn =>
      obtain rfl := Option.some.inj h
      exact hn
    · exact nomatch h
  · subst h
    cases family <;> rfl

namespace Prefix

/-! ## Host bits -/

theorem hostBitsClear_cons (b : UInt8) (rest : Octets) (length : Nat) :
    hostBitsClear (b :: rest) length =
      (b.toNat % 2 ^ (8 - length) == 0 && hostBitsClear rest (length - 8)) := rfl

/-- **Host bits are clear exactly if the address is a multiple of a power of two.** -/
theorem hostBitsClear_iff_dvd {o : Octets} {length : Nat} :
    hostBitsClear o length = true ↔ 2 ^ (8 * o.length - length) ∣ o.bigEndian := by
  induction o generalizing length with
  | nil => simp [hostBitsClear, Octets.bigEndian]
  | cons b rest ih =>
    have hpow : (256 : Nat) ^ rest.length = 2 ^ (8 * rest.length) := by
      rw [Nat.pow_mul]
    rw [hostBitsClear_cons, Bool.and_eq_true, beq_iff_eq, ih, Octets.bigEndian_cons,
      List.length_cons, hpow]
    rcases Nat.le_total 8 length with hle | hle
    · -- The first octet is inside the prefix, and its value a multiple of whatever is asked for.
      have hexp : 8 * (rest.length + 1) - length = 8 * rest.length - (length - 8) := by omega
      have hfirst : 2 ^ (8 * rest.length - (length - 8)) ∣ b.toNat * 2 ^ (8 * rest.length) :=
        Dvd.dvd.mul_left (Nat.pow_dvd_pow 2 (Nat.sub_le _ _)) _
      rw [hexp, Nat.dvd_add_right hfirst, Nat.sub_eq_zero_of_le hle, Nat.pow_zero, Nat.mod_one]
      exact and_iff_right rfl
    · -- All octets behind the first one are host octets, so they have to be zero.
      have hlt : Octets.bigEndian rest < 2 ^ (8 * rest.length) := hpow ▸ Octets.bigEndian_lt rest
      have hexp : 8 * (rest.length + 1) - length = (8 - length) + 8 * rest.length := by omega
      rw [Nat.sub_eq_zero_of_le hle, Nat.sub_zero, hexp, Nat.pow_add]
      refine ⟨fun h ↦ ?_, fun h ↦ ?_⟩
      · obtain ⟨hb, hrest⟩ := h
        rw [Nat.eq_zero_of_dvd_of_lt hrest hlt, Nat.add_zero]
        exact Nat.mul_dvd_mul_right (Nat.dvd_of_mod_eq_zero hb) _
      · have hdvd : 2 ^ (8 * rest.length) ∣ Octets.bigEndian rest :=
          (Nat.dvd_add_right (Nat.dvd_mul_left _ _)).mp (Nat.dvd_trans (Nat.dvd_mul_left _ _) h)
        rw [Nat.eq_zero_of_dvd_of_lt hdvd hlt, Nat.add_zero] at h
        exact ⟨Nat.mod_eq_zero_of_dvd (Nat.dvd_of_mul_dvd_mul_right (Nat.two_pow_pos _) h), hdvd⟩

theorem hostBitsClear_of_le {o : Octets} {length : Nat} (h : 8 * o.length ≤ length) :
    hostBitsClear o length = true := by
  rw [hostBitsClear_iff_dvd, Nat.sub_eq_zero_of_le h]
  exact Nat.one_dvd _

theorem hostBitsClear_append (a b : Octets) (length : Nat) :
    hostBitsClear (a ++ b) length =
      (hostBitsClear a length && hostBitsClear b (length - 8 * a.length)) := by
  induction a generalizing length with
  | nil => rfl
  | cons c a ih =>
    have hlength : length - 8 - 8 * a.length = length - 8 * (c :: a).length := by
      rw [List.length_cons]
      omega
    rw [List.cons_append, hostBitsClear, ih, hostBitsClear, Bool.and_assoc, hlength]

theorem hostBitsClear_replicate (k length : Nat) :
    hostBitsClear (List.replicate k 0) length = true := by
  induction k generalizing length with
  | zero => rfl
  | succ k ih => simp [List.replicate_succ, hostBitsClear, ih]

/-- Octets of host bits only are zero. -/
theorem eq_replicate_of_hostBitsClear {o : Octets} (h : hostBitsClear o 0 = true) :
    o = List.replicate o.length 0 := by
  induction o with
  | nil => rfl
  | cons b rest ih =>
    rw [hostBitsClear_cons, Bool.and_eq_true, beq_iff_eq] at h
    have hb : b.toNat = 0 := by
      have hlt := b.toNat_lt
      omega
    rw [List.length_cons, List.replicate_succ, ← ih h.2]
    exact congrArg (· :: rest) (UInt8.toNat_inj.mp hb)

/-- The bits of a BIT STRING that do not count are zero, so as a prefix it has no host bits set,
however many zeros are put behind it. -/
theorem hostBitsClear_bitString (b : Der.BitString) (k : Nat) :
    hostBitsClear (b.octets ++ List.replicate k 0) b.bitLength = true := by
  rw [hostBitsClear_append, hostBitsClear_replicate, Bool.and_true]
  obtain ⟨unused, octets, regular⟩ := b
  rw [Der.BitString.isRegular, Bool.and_eq_true, Bool.and_eq_true, decide_eq_true_eq] at regular
  obtain ⟨⟨hunused, -⟩, hlast⟩ := regular
  have hle : unused.toNat ≤ 7 := UInt8.le_iff_toNat_le.mp hunused
  obtain rfl | ⟨front, last, hoctets⟩ := List.eq_nil_or_concat octets
  · rfl
  · rw [List.concat_eq_append] at hoctets
    subst hoctets
    have hlength : (front ++ [last]).length = front.length + 1 := by simp
    have hexp : 8 - (8 * (front.length + 1) - unused.toNat - 8 * front.length) = unused.toNat := by
      omega
    rw [List.getLastD_concat] at hlast
    simp only [Der.BitString.bitLength, hostBitsClear_append, hlength]
    rw [hostBitsClear_of_le (by omega), hostBitsClear, hexp, hlast]
    rfl

/-! ## Addresses in sixteen octets -/

theorem addressOf_widened (address : IpAddress) :
    addressOf (widened address).1 (widened address).2 = address := by
  cases address with
  | v4 o =>
    have htake : (o.val ++ List.replicate (16 - o.val.length) 0).take 4 = o.val :=
      List.take_left' o.property
    exact congrArg IpAddress.v4 (Subtype.ext htake)
  | v6 o => rfl

/-- An address is the one of its sixteen octets, if those behind it are host octets. -/
theorem widened_addressOf {family : AddressFamily} {octets : FixedOctets 16} {length : UInt8}
    (hle : length ≤ family.width) (hclear : hostBitsClear octets.val length.toNat = true) :
    widened (addressOf family octets) = (family, octets) := by
  cases family with
  | ipv6 => rfl
  | ipv4 =>
    have hlength : octets.val.length = 16 := octets.property
    have htake : (octets.val.take 4).length = 4 := by simp [hlength]
    have hmax : length.toNat ≤ 32 := UInt8.le_iff_toNat_le.mp hle
    have hdrop : octets.val.drop 4 = List.replicate 12 0 := by
      rw [← List.take_append_drop 4 octets.val, hostBitsClear_append, Bool.and_eq_true, htake,
        Nat.sub_eq_zero_of_le hmax] at hclear
      have hzero := eq_replicate_of_hostBitsClear hclear.2
      rwa [List.length_drop, hlength] at hzero
    have hpad : octets.val.take 4 ++ List.replicate (16 - (octets.val.take 4).length) 0 =
        octets.val := by
      rw [htake, ← hdrop, List.take_append_drop]
    exact congrArg (Prod.mk _) (Subtype.ext hpad)

/-! ## Rules -/

/-- The rules for prefixes. -/
structure WellFormed (p : Prefix) : Prop where
  family_eq : (widened p.address).1 = p.family
  length_le : p.length ≤ p.maxLength
  maxLength_le : p.maxLength ≤ p.family.width
  clear : hostBitsClear (widened p.address).2.val p.length.toNat = true

/-- **A prefix is made of sixteen octets exactly if it keeps the rules** and these are the octets of
its address. -/
theorem ofOctets_eq_ok_iff {family : AddressFamily} {octets : FixedOctets 16} {length : UInt8}
    {maxLength : Option UInt8} {p : Prefix} :
    ofOctets family octets length maxLength = .ok p ↔
      p.WellFormed ∧ widened p.address = (family, octets) ∧ p.length = length ∧
        p.maxLength = maxLength.getD length := by
  rw [ofOctets]
  refine ⟨fun h ↦ ?_, fun h ↦ ?_⟩
  · split at h
    · exact nomatch h
    next hwidth =>
    split at h
    · exact nomatch h
    next hmax =>
    split at h
    · next hclear =>
      obtain rfl := Except.ok.inj h
      rw [UInt8.not_lt] at hwidth
      rw [not_or, UInt8.not_lt, UInt8.not_lt] at hmax
      have hwiden := widened_addressOf hwidth hclear
      refine ⟨⟨?_, hmax.1, hmax.2, ?_⟩, hwiden, rfl, rfl⟩
      · rw [hwiden]
      · rw [hwiden]
        exact hclear
    · exact nomatch h
  · obtain ⟨⟨hfamily, hle, hmax, hclear⟩, hwiden, rfl, hlongest⟩ := h
    obtain ⟨family', address, length, longest⟩ := p
    dsimp only at hfamily hle hmax hclear hwiden hlongest ⊢
    have haddress := addressOf_widened address
    rw [hwiden] at hfamily hclear haddress
    subst hfamily haddress
    rw [← hlongest, if_neg (UInt8.not_lt.mpr (UInt8.le_trans hle hmax)),
      if_neg (not_or.mpr ⟨UInt8.not_lt.mpr hle, UInt8.not_lt.mpr hmax⟩), if_pos hclear]

/-- **The parts of a prefix make it again exactly if it keeps the rules.** -/
theorem ofAddress_eq_ok_iff {p : Prefix} :
    ofAddress p.address p.length (some p.maxLength) = .ok p ↔ p.WellFormed := by
  rw [ofAddress, ofOctets_eq_ok_iff]
  exact ⟨fun h ↦ h.1, fun h ↦ ⟨h, rfl, rfl, rfl⟩⟩

theorem isValid_iff {p : Prefix} : p.isValid = true ↔ p.WellFormed := by
  rw [← ofAddress_eq_ok_iff, isValid]
  cases ofAddress p.address p.length (some p.maxLength) with
  | error e => exact ⟨fun h ↦ (nomatch h), fun h ↦ (nomatch h)⟩
  | ok q => rw [beq_iff_eq, Except.ok.injEq]

/-- The rules with the host bits in numbers: as many bits at the end of the sixteen octets as are
behind the prefix. -/
theorem wellFormed_iff {p : Prefix} :
    p.WellFormed ↔
      (widened p.address).1 = p.family ∧ p.length ≤ p.maxLength ∧ p.maxLength ≤ p.family.width ∧
        2 ^ (128 - p.length.toNat) ∣ (widened p.address).2.val.bigEndian := by
  have hclear : hostBitsClear (widened p.address).2.val p.length.toNat = true ↔
      2 ^ (128 - p.length.toNat) ∣ (widened p.address).2.val.bigEndian := by
    rw [hostBitsClear_iff_dvd, (widened p.address).2.property]
  rw [← hclear]
  exact ⟨fun ⟨hf, hl, hm, hc⟩ ↦ ⟨hf, hl, hm, hc⟩, fun ⟨hf, hl, hm, hc⟩ ↦ ⟨hf, hl, hm, hc⟩⟩

end Prefix

end Rpki
