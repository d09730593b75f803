import Rpki.Proofs.Machine.Prefix
import Rpki.Proofs.Roa.Content
import Rpki.Proofs.Version

/-!
# Prefixes that are too long

There are two reasons for which a prefix is refused with its length: it has more bits than an
address of its family, or there are bits set behind its end.  They share an error, so whoever sees
the error cannot tell which it was.

For a prefix that is read from a ROA, it is always the first.  The bits of a BIT STRING that do not
count are zero, and so is what it is filled up with (`Prefix.hostBitsClear_padRight`), so the test
for the second reason succeeds whenever it is reached.  What is left is the one place where the
number of bits is compared with the family, and `ParseError.LengthIs` carries what is known there
outwards: to the list of the block, to the blocks, and to the whole content.
-/

set_option autoImplicit false

namespace Rpki

open Der

/-! ## Host bits -/

namespace Prefix

/-- **The bits behind a prefix are clear exactly if a power of two divides the address.** -/
theorem hostBitsClear_fixed_iff_dvd {o : FixedOctets 16} {length : Nat} :
    hostBitsClear o.val length = true ↔ 2 ^ (128 - length) ∣ o.val.bigEndian := by
  rw [hostBitsClear_iff_dvd, o.property]

/-- A BIT STRING that is filled up with zeros has no bits behind its end. -/
theorem hostBitsClear_padRight {bits : BitString} (hle : bits.octets.length ≤ 16) :
    hostBitsClear (FixedOctets.padRight 16 bits.octets hle).val bits.bitLength = true :=
  hostBitsClear_bitString bits _

/-- The bits of a prefix that is not too long fit into sixteen octets. -/
theorem length_octets_le_of_bitLength_le {family : AddressFamily} {bits : BitString}
    (h : bits.bitLength ≤ family.width.toNat) : bits.octets.length ≤ 16 := by
  have hwidth : family.width.toNat ≤ 128 := by cases family <;> decide
  exact bits.length_octets_le (by omega)

end Prefix

/-- What is tested with shifted masks is divisibility, and no shift goes past the end of an octet.
-/
theorem Machine.hostBitsClear_eq_decide_dvd (o : FixedOctets 16) (length : Nat) :
    Machine.hostBitsClear length 0 o.val =
      some (decide (2 ^ (128 - length) ∣ o.val.bigEndian)) := by
  rw [Machine.hostBitsClear_eq (by rw [o.property]), Nat.mul_zero, Nat.sub_zero, Option.some.injEq,
    Bool.eq_iff_iff, Prefix.hostBitsClear_fixed_iff_dvd, decide_eq_true_eq]

/-! ## Errors with a length -/

/-- If the error is about the length of a prefix, the length that it names has the property. -/
def ParseError.LengthIs (P : Nat → Prop) (e : ParseError) : Prop :=
  ∀ bits, e = .semantic (.prefixLength bits) → P bits

/-- What fails with the length of a prefix only if that has the property. -/
abbrev FailsLength (P : Nat → Prop) {α : Type} (r : Except ParseError α) : Prop :=
  FailsOnly (·.LengthIs P) r

section

variable {P Q : Nat → Prop} {α : Type}

theorem FailsLength.mono {r : Except ParseError α} (h : FailsLength P r)
    (hPQ : ∀ n, P n → Q n) : FailsLength Q r :=
  FailsOnly.mono h fun _ he n heq ↦ hPQ n (he n heq)

/-- Faults in the structure are not about the length of a prefix. -/
theorem failsLength_inField (f : Field) (r : Except StructuralError α) :
    FailsLength P (inField f r) :=
  failsOnly_mapError fun _ _ _ h ↦ nomatch h

theorem failsLength_asValue {r : Except SemanticError α}
    (h : ∀ n, r = .error (.prefixLength n) → P n) : FailsLength P (asValue r) := by
  refine failsOnly_asValue fun error herror n heq ↦ ?_
  obtain rfl := ParseError.semantic.inj heq
  exact h n herror

theorem failsLength_asValue_error {error : SemanticError} (h : ∀ n, error ≠ .prefixLength n) :
    FailsLength P (asValue (.error error : Except SemanticError α)) :=
  failsLength_asValue fun n hn ↦ absurd (Except.error.inj hn) (h n)

/-- A length that is named for a list is named for one of its entries. -/
theorem failsLength_readEach (f : Field) {item : Sequence → Except ParseError α}
    {R : Sequence → Nat → Prop} (hitem : ∀ s, FailsLength (R s) (item s)) (position : Nat)
    (es : Sequence) :
    FailsLength (fun n ↦ ∃ s, .ofSequence s ∈ es ∧ R s n) (readEach f item position es) := by
  intro error h
  obtain ⟨before, e, after, rfl, -, h⟩ := readEach_eq_error_iff.mp h
  rw [readAt] at h
  have hat : FailsLength (fun n ↦ ∃ s, .ofSequence s ∈ before ++ e :: after ∧ R s n) (do
      let s ← inField f (e.sequence (position + before.length))
      item s) := by
    refine failsOnly_bind_of_ok (failsLength_inField f _) fun s hs ↦ ?_
    obtain ⟨-, rfl⟩ := Element.sequence_eq_ok_iff.mp (inField_eq_ok_iff.mp hs)
    exact (hitem s).mono fun n hn ↦ ⟨s, by simp, hn⟩
  exact hat error h

/-- A version that should not be there is not a prefix. -/
theorem lengthIs_explicitVersion {s : Sequence} (h : s ≠ []) : (explicitVersion s).LengthIs P := by
  obtain ⟨first, rest, rfl⟩ := List.exists_cons_of_ne_nil h
  rw [explicitVersion_cons]
  exact versionError_of (fun _ _ heq ↦ nomatch heq) (fun _ _ _ heq ↦ nomatch heq) first

end

/-! ## Reading -/

namespace Prefix

/-- The elements have a BIT STRING of so many bits in front. -/
def HasBits (item : Sequence) (n : Nat) : Prop :=
  ∃ bits, item.bitString 0 = .ok bits ∧ bits.bitLength = n

theorem ofOctets_padRight_ne_prefixLength {family : AddressFamily} {bits : BitString}
    (h : bits.bitLength ≤ family.width.toNat) (hle : bits.octets.length ≤ 16)
    (maxLength : Option UInt8) (n : Nat) :
    ofOctets family (.padRight 16 bits.octets hle) (UInt8.ofNat bits.bitLength) maxLength ≠
      .error (.prefixLength n) := by
  have hlength := toNat_bitLength h
  have hwidth : ¬ family.width < UInt8.ofNat bits.bitLength := by
    rw [UInt8.not_lt, UInt8.le_iff_toNat_le, hlength]
    exact h
  rw [ofOctets, if_neg hwidth, hlength, if_pos (hostBitsClear_padRight hle)]
  split <;> simp

theorem maxLengthOf_ne_prefixLength (length n : Nat) (i : Integer) :
    maxLengthOf length i ≠ .error (.prefixLength n) := by
  rw [maxLengthOf]
  split
  · split <;> simp
  · simp

/-- **A prefix that is refused with its length is longer than the family has bits.** -/
theorem failsLength_ofElements (family : AddressFamily) (item : Sequence) :
    FailsLength (fun n ↦ HasBits item n ∧ family.width.toNat < n) (ofElements family item) := by
  rw [ofElements]
  refine failsOnly_bind (failsLength_inField _ _) fun count ↦ ?_
  refine failsOnly_bind_of_ok (failsLength_inField _ _) fun bits hbits ↦ ?_
  split
  · next hle =>
    have hmade (maxLength : Option UInt8) := failsLength_asValue
      (P := fun n ↦ HasBits item n ∧ family.width.toNat < n)
      fun n hn ↦ absurd hn (ofOctets_padRight_ne_prefixLength hle
        (length_octets_le_of_bitLength_le hle) maxLength n)
    dsimp only
    split
    · refine failsOnly_bind (failsLength_inField _ _) fun i ↦ ?_
      exact failsOnly_bind (failsOnly_bind (failsLength_asValue fun n hn ↦
        absurd hn (maxLengthOf_ne_prefixLength bits.bitLength n i)) fun m ↦ failsOnly_ok _) hmade
    · exact hmade none
  · next hgt =>
    refine failsLength_asValue fun n hn ↦ ?_
    obtain rfl := SemanticError.prefixLength.inj (Except.error.inj hn)
    exact ⟨⟨bits, inField_eq_ok_iff.mp hbits, rfl⟩, Nat.lt_of_not_le hgt⟩

end Prefix

namespace RoaContent

/-- The block has the family, and a prefix of so many bits in its list. -/
def BlockHas (block : Sequence) (family : AddressFamily) (n : Nat) : Prop :=
  ∃ octets list item, block.octetString 0 = .ok octets ∧
    AddressFamily.ofOctets? octets = some family ∧ block.sequence 1 = .ok list ∧
    .ofSequence item ∈ list ∧ Prefix.HasBits item n

theorem failsLength_nonempty {P : Nat → Prop} (s : Sequence) : FailsLength P (nonempty s) := by
  rw [nonempty]
  split
  · exact failsLength_asValue_error (by simp)
  · exact failsOnly_ok s

theorem failsLength_readBlock (seen : List AddressFamily) (block : Sequence) :
    FailsLength (fun n ↦ ∃ family, BlockHas block family n ∧ family.width.toNat < n)
      (readBlock seen block) := by
  rw [readBlock]
  refine failsOnly_bind (failsLength_inField _ _) fun _ ↦ ?_
  refine failsOnly_bind_of_ok (failsLength_inField _ _) fun octets hoctets ↦ ?_
  cases hfamily : AddressFamily.ofOctets? octets with
  | none => exact failsLength_asValue_error (by simp)
  | some family =>
    dsimp only
    split
    · exact failsLength_asValue_error (by simp)
    · refine failsOnly_bind_of_ok (failsLength_inField _ _) fun list hlist ↦ ?_
      refine failsOnly_bind_of_ok (failsLength_nonempty list) fun list' hlist' ↦ ?_
      obtain ⟨-, rfl⟩ := nonempty_eq_ok_iff.mp hlist'
      refine failsOnly_bind ((failsLength_readEach _ (Prefix.failsLength_ofElements family) 0
        list).mono fun n hn ↦ ?_) fun prefixes ↦ failsOnly_ok _
      obtain ⟨item, hitem, hbits, hlt⟩ := hn
      exact ⟨family, ⟨octets, list, item, inField_eq_ok_iff.mp hoctets, hfamily,
        inField_eq_ok_iff.mp hlist, hitem, hbits⟩, hlt⟩

/-- The induction is on the blocks.  A length that is named comes from the first of them or from
those behind it. -/
theorem failsLength_readBlocks (seen : List AddressFamily) (position : Nat) (es : Sequence) :
    FailsLength (fun n ↦ ∃ block family, .ofSequence block ∈ es ∧ BlockHas block family n ∧
      family.width.toNat < n) (readBlocks seen position es) := by
  induction es generalizing seen position with
  | nil => exact failsOnly_ok []
  | cons e es ih =>
    rw [readBlocks]
    refine failsOnly_bind_of_ok (failsLength_inField _ _) fun block hblock ↦ ?_
    obtain ⟨-, rfl⟩ := Element.sequence_eq_ok_iff.mp (inField_eq_ok_iff.mp hblock)
    refine failsOnly_bind ((failsLength_readBlock seen block).mono fun n hn ↦ ?_) fun read ↦ ?_
    · obtain ⟨family, hhas, hlt⟩ := hn
      exact ⟨block, family, List.mem_cons_self, hhas, hlt⟩
    · refine failsOnly_bind ((ih (read.1 :: seen) (position + 1)).mono fun n hn ↦ ?_)
        fun others ↦ failsOnly_ok _
      obtain ⟨block', family, hmem, hhas, hlt⟩ := hn
      exact ⟨block', family, List.mem_cons_of_mem _ hmem, hhas, hlt⟩

/-- **Content that is refused with the length of a prefix has a prefix of that length**, in a block
of a family that has fewer bits. -/
theorem failsLength_decode (content : Octets) :
    FailsLength (fun n ↦ ∃ es blocks block family, Sequence.decode content = .ok es ∧
      es.sequence 1 = .ok blocks ∧ .ofSequence block ∈ blocks ∧ BlockHas block family n ∧
      family.width.toNat < n) (decode content) := by
  rw [decode]
  refine failsOnly_bind_of_ok (failsLength_inField _ _) fun es hes ↦ ?_
  refine failsOnly_bind_of_ok (failsLength_inField _ _) fun count hcount ↦ ?_
  obtain ⟨-, rfl⟩ := Sequence.checkCount_eq_ok_iff.mp (inField_eq_ok_iff.mp hcount)
  split
  · next hthree =>
    exact failsOnly_error (lengthIs_explicitVersion (List.ne_nil_of_length_pos (by omega)))
  · refine failsOnly_bind (failsLength_inField _ _) fun i ↦ ?_
    cases i.toUInt32? with
    | none => exact failsLength_asValue_error (by simp)
    | some asId =>
      refine failsOnly_bind_of_ok (failsLength_inField _ _) fun blocks hblocks ↦ ?_
      refine failsOnly_bind_of_ok (failsLength_nonempty blocks) fun blocks' hblocks' ↦ ?_
      obtain ⟨-, rfl⟩ := nonempty_eq_ok_iff.mp hblocks'
      refine failsOnly_bind ((failsLength_readBlocks [] 0 blocks).mono fun n hn ↦ ?_)
        fun prefixes ↦ failsOnly_ok _
      obtain ⟨block, family, hmem, hhas, hlt⟩ := hn
      exact ⟨es, blocks, block, family, inField_eq_ok_iff.mp hes, inField_eq_ok_iff.mp hblocks,
        hmem, hhas, hlt⟩

end RoaContent

/-! ## The arithmetic of prefixes -/

/-- **The arithmetic of prefixes is exact.**  Testing the bits behind a prefix octet by octet, with
a mask shifted to its end, asks whether a power of two divides the address.  The octets that are
made of a BIT STRING with no more bits than the family has pass the test, so a ROA is refused with
the length of a prefix only if it has one of that length, in a block of a family with fewer bits. -/
theorem prefix_arithmetic :
    (∀ (o : FixedOctets 16) (length : Nat),
        (Prefix.hostBitsClear o.val length = true ↔ 2 ^ (128 - length) ∣ o.val.bigEndian) ∧
          Machine.hostBitsClear length 0 o.val =
            some (decide (2 ^ (128 - length) ∣ o.val.bigEndian))) ∧
      (∀ (family : AddressFamily) (content : Octets) (bits : BitString),
        BitString.read? content = some bits → bits.bitLength ≤ family.width.toNat →
          ∃ o : FixedOctets 16,
            Machine.write (Machine.zeros 16) 0 bits.octets.length bits.octets = some o ∧
              o.val = bits.octets ++ List.replicate (16 - bits.octets.length) 0 ∧
              (UInt8.ofNat bits.bitLength).toNat = bits.bitLength ∧
              Prefix.hostBitsClear o.val bits.bitLength = true) ∧
      ∀ content n, RoaContent.decode content = .error (.semantic (.prefixLength n)) →
        ∃ es blocks block family, Sequence.decode content = .ok es ∧
          es.sequence 1 = .ok blocks ∧ .ofSequence block ∈ blocks ∧
          RoaContent.BlockHas block family n ∧ family.width.toNat < n := by
  refine ⟨fun o length ↦ ⟨Prefix.hostBitsClear_fixed_iff_dvd,
    Machine.hostBitsClear_eq_decide_dvd o length⟩, fun family content bits _ hle ↦ ?_,
    fun content n h ↦ RoaContent.failsLength_decode content _ h n rfl⟩
  have hlength := Prefix.length_octets_le_of_bitLength_le hle
  exact ⟨.padRight 16 bits.octets hlength, Machine.write_front hlength rfl, rfl,
    Prefix.toNat_bitLength hle, Prefix.hostBitsClear_padRight hlength⟩

/-- The address 10.128.0.0 is a prefix of nine bits and not one of eight, a BIT STRING of nine bits
is filled up to its octets, and an IPv4 prefix of 33 bits is refused. -/
theorem prefix_arithmetic_nine_bits :
    let o : FixedOctets 16 := ⟨[10, 128, 0, 0, 0, 0, 0, 0, 0, 0, 0, 0, 0, 0, 0, 0], rfl⟩
    let bits : BitString := ⟨7, [10, 128], by decide⟩
    let roa : Octets := [0x30, 0x19, 0x02, 0x03, 0x00, 0xFD, 0xE8, 0x30, 0x12, 0x30, 0x10, 0x04,
      0x02, 0x00, 0x01, 0x30, 0x0A, 0x30, 0x08, 0x03, 0x06, 0x07, 0x0A, 0x00, 0x00, 0x00, 0x00]
    Machine.hostBitsClear 8 0 o.val = some false ∧ Machine.hostBitsClear 9 0 o.val = some true ∧
      (BitString.read? [7, 10, 128] = some bits ∧
        bits.bitLength ≤ AddressFamily.ipv4.width.toNat ∧
        Machine.write (Machine.zeros 16) 0 bits.octets.length bits.octets = some o ∧
        Prefix.hostBitsClear o.val bits.bitLength = true) ∧
      RoaContent.decode roa = .error (.semantic (.prefixLength 33)) ∧
        ∃ es blocks block family, Sequence.decode roa = .ok es ∧ es.sequence 1 = .ok blocks ∧
          .ofSequence block ∈ blocks ∧ RoaContent.BlockHas block family 33 ∧
          family.width.toNat < 33 := by
  intro o bits roa
  have hroa : RoaContent.decode roa = .error (.semantic (.prefixLength 33)) := by
    decide +kernel +zetaReduce
  have hread : BitString.read? [7, 10, 128] = some bits := by decide +kernel +zetaReduce
  have hbits : bits.bitLength ≤ AddressFamily.ipv4.width.toNat := by decide +kernel +zetaReduce
  obtain ⟨hclear, hpadded, hlong⟩ := prefix_arithmetic
  have height := (hclear o 8).2
  have hnine := (hclear o 9).2
  obtain ⟨o', hwrite, ho', -, hhost⟩ := hpadded .ipv4 _ bits hread hbits
  obtain rfl : o' = o := Subtype.ext ho'
  refine ⟨height.trans ?_, hnine.trans ?_, ⟨hread, hbits, hwrite, hhost⟩, hroa, hlong roa 33 hroa⟩
  · decide +kernel +zetaReduce
  · decide +kernel +zetaReduce

end Rpki
