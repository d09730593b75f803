import Rpki.Proofs.Roa.Attestation
import Rpki.Proofs.SignedObject

/-!
# ROA content is read exactly from attestations

The octets that are read are those of an `Attestation`, and what is read is the content it has.
Every level of reading has an equivalence that says so, for entries, for a block, for all blocks and
for the whole.  The induction is on the blocks, where the families that were seen become families
that are distinct.

Only the outermost sequence is held to a length.  The sequences inside are then shorter, which
`Element.RegularIfShort` is for.
-/

set_option autoImplicit false

namespace Rpki

open Der

/-! ## Entries -/

theorem AddressFamily.ofOctets?_eq_some_iff {o : Octets} {family : AddressFamily} :
    ofOctets? o = some family ↔ o = Octets.ofBigEndian 2 family.number.toNat := by
  constructor
  · intro h
    unfold ofOctets? at h
    split at h
    · obtain rfl := Option.some.inj h
      rfl
    · obtain rfl := Option.some.inj h
      rfl
    · exact nomatch h
  · rintro rfl
    cases family <;> rfl

namespace Prefix

/-- A maximum length is read exactly from its INTEGER. -/
theorem maxLengthOf_eq_ok_iff {length : Nat} {i : Integer} {m : UInt8} :
    maxLengthOf length i = .ok m ↔ i = .ofNat m.toNat := by
  rw [maxLengthOf]
  refine ⟨fun h ↦ ?_, fun h ↦ ?_⟩
  · split at h
    · next n hn =>
      split at h
      · next hlt =>
        obtain rfl := Except.ok.inj h
        rw [UInt8.toNat_ofNat_of_lt' hlt]
        exact Integer.toUInt32?_eq_some_iff.mp hn
      · exact nomatch h
    · exact nomatch h
  · have hlt : m.toNat < 256 := m.toNat_lt
    have hn : (UInt32.ofNat m.toNat).toNat = m.toNat :=
      UInt32.toNat_ofNat_of_lt' (Nat.lt_trans hlt (by decide))
    have hread : i.toUInt32? = some (UInt32.ofNat m.toNat) :=
      Integer.toUInt32?_eq_some_iff.mpr (by rw [hn, h])
    rw [hread]
    dsimp only
    rw [hn, if_pos hlt, UInt8.ofNat_toNat]

variable {family : AddressFamily} {p : Prefix}

/-- The number of bits of a prefix is below the 256 values of an octet. -/
theorem toNat_bitLength {bits : BitString} (h : bits.bitLength ≤ family.width.toNat) :
    (UInt8.ofNat bits.bitLength).toNat = bits.bitLength :=
  UInt8.toNat_ofNat_of_lt' (Nat.lt_of_le_of_lt h family.width.toNat_lt)

/-- **A prefix is made of bits and a maximum length exactly if these are an entry.**  That the bits
behind the prefix are clear is no condition, since a BIT STRING has no others. -/
theorem ofOctets_padRight_eq_ok_iff {bits : BitString}
    (hbits : bits.bitLength ≤ family.width.toNat) (hle : bits.octets.length ≤ 16)
    {maxLength : Option UInt8} :
    ofOctets family (.padRight 16 bits.octets hle) (UInt8.ofNat bits.bitLength) maxLength = .ok p ↔
      ∃ e : Attestation.Entry family, e.bits = bits ∧ e.maxLength = maxLength ∧ e.toPrefix = p := by
  have hlength := toNat_bitLength hbits
  rw [ofOctets_eq_ok_iff]
  refine ⟨fun h ↦ ?_, fun h ↦ ?_⟩
  · obtain ⟨hp, hwiden, hplength, hpmax⟩ := h
    have hfamily : family = p.family := by rw [← hp.family_eq, hwiden]
    have hmem : ∀ m ∈ maxLength, bits.bitLength ≤ m.toNat ∧ m ≤ family.width := by
      rintro m rfl
      rw [Option.getD_some] at hpmax
      have hple := UInt8.le_iff_toNat_le.mp hp.length_le
      rw [hplength, hlength, hpmax] at hple
      exact ⟨hple, hpmax ▸ hfamily ▸ hp.maxLength_le⟩
    refine ⟨⟨bits, maxLength, hbits, hmem⟩, rfl, rfl, ?_⟩
    have haddress := addressOf_widened p.address
    rw [hwiden] at haddress
    obtain ⟨family', address, length, longest⟩ := p
    dsimp only at hfamily hplength hpmax haddress
    simp only [Attestation.Entry.toPrefix, hfamily, hplength, hpmax, ← haddress]
  · obtain ⟨e, rfl, rfl, rfl⟩ := h
    have hclear : hostBitsClear (e.bits.octets ++ List.replicate (16 - e.bits.octets.length) 0)
        (UInt8.ofNat e.bits.bitLength).toNat = true := by
      rw [hlength]
      exact hostBitsClear_bitString _ _
    have hwidth : UInt8.ofNat e.bits.bitLength ≤ family.width := by
      rw [UInt8.le_iff_toNat_le, hlength]
      exact hbits
    have hwiden : widened e.toPrefix.address =
        (family, .padRight 16 e.bits.octets e.length_octets_le) :=
      widened_addressOf hwidth hclear
    refine ⟨⟨by rw [hwiden]; rfl, ?_, ?_, by rw [hwiden]; exact hclear⟩, hwiden, rfl, rfl⟩
    · rw [UInt8.le_iff_toNat_le]
      cases hmax : e.maxLength with
      | none => simp [Attestation.Entry.toPrefix, hmax]
      | some m =>
        simp only [Attestation.Entry.toPrefix, hmax, Option.getD_some, hlength]
        exact (e.maxLength_mem m hmax).1
    · cases hmax : e.maxLength with
      | none => simpa [Attestation.Entry.toPrefix, hmax] using hwidth
      | some m =>
        simp only [Attestation.Entry.toPrefix, hmax, Option.getD_some]
        exact (e.maxLength_mem m hmax).2

/-- The prefix of an entry keeps the rules. -/
theorem isValid_toPrefix (e : Attestation.Entry family) : e.toPrefix.isValid = true := by
  have hmade := (ofOctets_padRight_eq_ok_iff e.bits_le e.length_octets_le).mpr ⟨e, rfl, rfl, rfl⟩
  exact isValid_iff.mpr (ofOctets_eq_ok_iff.mp hmade).1

/-- **A prefix is read exactly from the elements of an entry.** -/
theorem ofElements_eq_ok_iff {item : Sequence} :
    ofElements family item = .ok p ↔
      ∃ e : Attestation.Entry family, item = e.elements ∧ e.toPrefix = p := by
  simp only [ofElements, bind_eq_ok_iff, inField_eq_ok_iff, Sequence.checkCount_eq_ok_iff,
    Sequence.bitString, Sequence.contentAt_eq_ok_iff, BitString.read?_eq_some_iff]
  refine ⟨fun h ↦ ?_, fun h ↦ ?_⟩
  · obtain ⟨_, ⟨hcount, rfl⟩, bits, ⟨_, hget, rfl⟩, h⟩ := h
    split at h
    · next hbits =>
      split at h
      · next htwo =>
        simp only [bind_eq_ok_iff, inField_eq_ok_iff, asValue_eq_ok_iff, map_eq_ok_iff,
          maxLengthOf_eq_ok_iff, ofOctets_padRight_eq_ok_iff hbits, Sequence.integer,
          Sequence.contentAt_eq_ok_iff, Integer.read?_eq_some_iff] at h
        obtain ⟨_, ⟨_, hget', rfl⟩, _, ⟨m, rfl, rfl⟩, e, rfl, hmax, rfl⟩ := h
        refine ⟨e, ?_, rfl⟩
        obtain ⟨first, second, rfl⟩ := List.length_eq_two.mp htwo
        rw [Attestation.Entry.elements_of_eq_some hmax, Option.some.inj hget,
          Option.some.inj hget']
        rfl
      · next htwo =>
        simp only [bind_eq_ok_iff, pure_eq_ok_iff, asValue_eq_ok_iff,
          ofOctets_padRight_eq_ok_iff hbits] at h
        obtain ⟨_, rfl, e, rfl, hmax, rfl⟩ := h
        refine ⟨e, ?_, rfl⟩
        have hone : item.length = 1 := by simpa [htwo] using hcount
        obtain ⟨first, rfl⟩ := List.length_eq_one_iff.mp hone
        rw [Attestation.Entry.elements_of_eq_none hmax, Option.some.inj hget]
        rfl
    · cases h
  · obtain ⟨e, rfl, rfl⟩ := h
    have hmade := (ofOctets_padRight_eq_ok_iff e.bits_le e.length_octets_le).mpr ⟨e, rfl, rfl, rfl⟩
    cases hmax : e.maxLength with
    | none =>
      rw [Attestation.Entry.elements_of_eq_none hmax]
      refine ⟨1, ⟨by simp, rfl⟩, e.bits, ⟨_, rfl, rfl⟩, ?_⟩
      rw [dif_pos e.bits_le, if_neg (by decide)]
      simp only [bind_eq_ok_iff, pure_eq_ok_iff, asValue_eq_ok_iff]
      exact ⟨none, rfl, hmax ▸ hmade⟩
    | some m =>
      rw [Attestation.Entry.elements_of_eq_some hmax]
      refine ⟨2, ⟨by simp, rfl⟩, e.bits, ⟨_, rfl, rfl⟩, ?_⟩
      rw [dif_pos e.bits_le, if_pos rfl]
      simp only [bind_eq_ok_iff, inField_eq_ok_iff, asValue_eq_ok_iff, map_eq_ok_iff,
        maxLengthOf_eq_ok_iff, Sequence.integer, Sequence.contentAt_eq_ok_iff,
        Integer.read?_eq_some_iff]
      exact ⟨.ofNat m.toNat, ⟨_, rfl, rfl⟩, some m, ⟨m, rfl, rfl⟩, hmax ▸ hmade⟩

end Prefix

/-! ## Blocks -/

namespace RoaContent

open Attestation (Block)

theorem nonempty_eq_ok_iff {s t : Sequence} : nonempty s = .ok t ↔ s ≠ [] ∧ s = t := by
  rw [nonempty]
  split
  · next h => exact ⟨fun ht ↦ (nomatch ht), fun ht ↦ absurd h ht.1⟩
  · next h => exact ⟨fun ht ↦ ⟨h, Except.ok.inj ht⟩, fun ht ↦ congrArg Except.ok ht.2⟩

/-- **A block is read exactly from its elements**, unless its family was seen before. -/
theorem readBlock_eq_ok_iff {seen : List AddressFamily} {block : Sequence}
    (hblock : ∀ x ∈ block, x.IsRegular) {family : AddressFamily} {prefixes : List Prefix} :
    readBlock seen block = .ok (family, prefixes) ↔
      family ∉ seen ∧ ∃ b : Block, b.family = family ∧ block = b.elements ∧
        b.prefixes = prefixes := by
  simp only [readBlock, bind_eq_ok_iff, inField_eq_ok_iff, Sequence.checkCount_eq_ok_iff,
    Sequence.octetString_eq_ok_iff]
  refine ⟨fun h ↦ ?_, fun h ↦ ?_⟩
  · obtain ⟨_, ⟨hcount, -⟩, octets, hoctets, h⟩ := h
    cases hfamily : AddressFamily.ofOctets? octets with
    | none =>
      rw [hfamily] at h
      exact nomatch h
    | some family' =>
      rw [hfamily] at h
      dsimp only at h
      split at h
      · exact nomatch h
      · next hseen =>
        simp only [bind_eq_ok_iff, inField_eq_ok_iff, Sequence.sequence_eq_ok_iff,
          nonempty_eq_ok_iff, pure_eq_ok_iff, Prod.mk.injEq] at h
        obtain ⟨list, ⟨hlist, hget⟩, _, ⟨hne, rfl⟩, _, hread, rfl, rfl⟩ := h
        rw [readEach_eq_ok_iff_exists Attestation.Entry.regularIfShort_elements
          Prefix.ofElements_eq_ok_iff hlist] at hread
        obtain ⟨entries, rfl, rfl⟩ := hread
        refine ⟨hseen, ⟨family', entries, fun h ↦ hne (by rw [h, List.map_nil])⟩, rfl, ?_, rfl⟩
        obtain ⟨first, second, rfl⟩ := List.length_eq_two.mp (List.mem_singleton.mp hcount)
        rw [Option.some.inj hoctets, Option.some.inj hget,
          AddressFamily.ofOctets?_eq_some_iff.mp hfamily]
        rfl
  · obtain ⟨hseen, b, rfl, rfl, rfl⟩ := h
    refine ⟨2, ⟨List.mem_cons_self, rfl⟩, _, rfl, ?_⟩
    rw [AddressFamily.ofOctets?_eq_some_iff.mpr rfl]
    dsimp only
    rw [if_neg hseen]
    simp only [bind_eq_ok_iff, inField_eq_ok_iff, Sequence.sequence_eq_ok_iff, nonempty_eq_ok_iff,
      pure_eq_ok_iff]
    have hlist := Element.isRegular_of_mem b.regularIfShort_entries
      (hblock _ (List.mem_cons_of_mem _ List.mem_cons_self)).lt
    have hne : b.entries.map Attestation.Entry.element ≠ [] :=
      fun h ↦ b.entries_ne (List.map_eq_nil_iff.mp h)
    refine ⟨_, ⟨hlist, rfl⟩, _, ⟨hne, rfl⟩, b.prefixes, ?_, rfl⟩
    rw [readEach_eq_ok_iff_exists Attestation.Entry.regularIfShort_elements
      Prefix.ofElements_eq_ok_iff hlist]
    exact ⟨b.entries, rfl, rfl⟩

/-- **Blocks are read exactly from their elements**, if their families are distinct and none of them
was seen before. -/
theorem readBlocks_eq_ok_iff {seen : List AddressFamily} {position : Nat} {es : Sequence}
    (hes : ∀ e ∈ es, e.IsRegular) {prefixes : List Prefix} :
    readBlocks seen position es = .ok prefixes ↔
      ∃ blocks : List Block, es = blocks.map Block.element ∧
        ((blocks.map Block.family).Nodup ∧ ∀ b ∈ blocks, b.family ∉ seen) ∧
        blocks.flatMap Block.prefixes = prefixes := by
  induction es generalizing seen position prefixes with
  | nil =>
    rw [readBlocks, Except.ok.injEq]
    constructor
    · rintro rfl
      exact ⟨[], rfl, ⟨List.nodup_nil, by simp⟩, rfl⟩
    · rintro ⟨blocks, hblocks, -, rfl⟩
      rw [List.map_eq_nil_iff.mp hblocks.symm, List.flatMap_nil]
  | cons e es ih =>
    rw [List.forall_mem_cons] at hes
    simp only [readBlocks, bind_eq_ok_iff, inField_eq_ok_iff, Element.sequence_eq_ok_iff,
      ih hes.2, pure_eq_ok_iff]
    refine ⟨fun h ↦ ?_, fun h ↦ ?_⟩
    · obtain ⟨block, ⟨hblock, rfl⟩, ⟨family, _⟩, hread, _, ⟨blocks, rfl, ⟨hnodup, hnew⟩, rfl⟩,
          rfl⟩ := h
      obtain ⟨hseen, b, rfl, rfl, rfl⟩ := (readBlock_eq_ok_iff hblock).mp hread
      refine ⟨b :: blocks, rfl, ⟨?_, ?_⟩, rfl⟩
      · rw [List.map_cons, List.nodup_cons]
        refine ⟨fun hmem ↦ ?_, hnodup⟩
        obtain ⟨b', hb', heq⟩ := List.mem_map.mp hmem
        exact hnew b' hb' (heq ▸ List.mem_cons_self)
      · rw [List.forall_mem_cons]
        exact ⟨hseen, fun b' hb' hmem ↦ hnew b' hb' (List.mem_cons_of_mem _ hmem)⟩
    · obtain ⟨blocks, hblocks, ⟨hnodup, hnew⟩, rfl⟩ := h
      obtain ⟨b, blocks, rfl, rfl, rfl⟩ := List.map_eq_cons_iff.mp hblocks.symm
      rw [List.map_cons, List.nodup_cons] at hnodup
      rw [List.forall_mem_cons] at hnew
      have hblock := Element.isRegular_of_mem b.regularIfShort_elements hes.1.lt
      refine ⟨b.elements, ⟨hblock, rfl⟩, (b.family, b.prefixes),
        (readBlock_eq_ok_iff hblock).mpr ⟨hnew.1, b, rfl, rfl, rfl⟩, _,
        ⟨blocks, rfl, ⟨hnodup.2, fun b' hb' hmem ↦ ?_⟩, rfl⟩, rfl⟩
      rcases List.mem_cons.mp hmem with (heq : b'.family = b.family) | hmem
      · exact hnodup.1 (heq ▸ List.mem_map_of_mem hb')
      · exact hnew.2 b' hb' hmem

/-! ## The whole content -/

/-- Whatever is read is an attestation. -/
theorem exists_attestation_of_decode {content : Octets} {c : RoaContent}
    (h : decode content = .ok c) :
    ∃ a : Attestation, a.element.content.length < 2 ^ 32 ∧ content = a.element.octets ∧
      a.content = c := by
  simp only [decode, bind_eq_ok_iff, inField_eq_ok_iff, Sequence.checkCount_eq_ok_iff,
    Sequence.decode_eq_ok_iff] at h
  obtain ⟨es, ⟨-, hlt, rfl⟩, _, ⟨hcount, rfl⟩, h⟩ := h
  split at h
  · exact nomatch h
  · next hthree =>
    simp only [bind_eq_ok_iff, inField_eq_ok_iff] at h
    obtain ⟨i, hi, h⟩ := h
    cases hnumber : i.toUInt32? with
    | none =>
      rw [hnumber] at h
      exact nomatch h
    | some asId =>
      rw [hnumber] at h
      simp only [bind_eq_ok_iff, inField_eq_ok_iff, Sequence.sequence_eq_ok_iff,
        nonempty_eq_ok_iff, pure_eq_ok_iff] at h
      obtain ⟨list, ⟨hlist, hget⟩, _, ⟨hne, rfl⟩, _, hread, rfl⟩ := h
      obtain ⟨blocks, rfl, ⟨hnodup, -⟩, rfl⟩ := (readBlocks_eq_ok_iff hlist).mp hread
      have hblocks : blocks ≠ [] := fun h ↦ hne (by rw [h, List.map_nil])
      let a : Attestation := ⟨asId, blocks, (Attestation.count_iff hnodup).mpr hblocks, hnodup⟩
      have hget' := Integer.exists_toUInt32?_iff.mp ⟨i, hi, hnumber⟩
      have hes : es = a.elements := by
        have htwo : es.length = 2 := by simpa [hthree] using hcount
        obtain ⟨first, second, rfl⟩ := List.length_eq_two.mp htwo
        rw [Option.some.inj hget, Option.some.inj hget']
        rfl
      subst hes
      exact ⟨a, hlt, rfl, rfl⟩

/-- An attestation is read as what it says, unless it is too long. -/
theorem decode_attestation {a : Attestation} (hlt : a.element.content.length < 2 ^ 32) :
    decode a.element.octets = .ok a.content := by
  have hregular := Element.isRegular_of_mem a.regularIfShort_elements hlt
  have hlist := Element.isRegular_of_mem (Attestation.regularIfShort_blocks a.blocks)
    (hregular _ (List.mem_cons_of_mem _ List.mem_cons_self)).lt
  have hget : a.elements[0]? = some ⟨.integer, false, (Integer.ofNat a.asId.toNat).octets⟩ := rfl
  obtain ⟨i, hi, hnumber⟩ := Integer.exists_toUInt32?_iff.mpr hget
  have hne : a.blocks.map Block.element ≠ [] :=
    fun h ↦ (Attestation.count_iff a.nodup).mp a.count (List.map_eq_nil_iff.mp h)
  have hread : readBlocks [] 0 (a.blocks.map Block.element) =
      .ok (a.blocks.flatMap Block.prefixes) :=
    (readBlocks_eq_ok_iff hlist).mpr ⟨a.blocks, rfl, ⟨a.nodup, by simp⟩, rfl⟩
  simp only [decode, bind_eq_ok_iff, inField_eq_ok_iff, Sequence.checkCount_eq_ok_iff,
    Sequence.decode_eq_ok_iff]
  refine ⟨a.elements, ⟨hregular, hlt, rfl⟩, 2, ⟨List.mem_cons_self, rfl⟩, ?_⟩
  rw [if_neg (by decide)]
  simp only [bind_eq_ok_iff, inField_eq_ok_iff]
  refine ⟨i, hi, ?_⟩
  rw [hnumber]
  simp only [bind_eq_ok_iff, inField_eq_ok_iff, Sequence.sequence_eq_ok_iff, nonempty_eq_ok_iff,
    pure_eq_ok_iff]
  exact ⟨_, ⟨hlist, rfl⟩, _, ⟨hne, rfl⟩, _, hread, rfl⟩

/-- **ROA content is read exactly from attestations**, as what they say: the number of the
autonomous system, and the prefixes of all blocks in order. -/
theorem decode_iff_attestation {content : Octets} {c : RoaContent} :
    decode content = .ok c ↔
      ∃ a : Attestation, a.element.content.length < 2 ^ 32 ∧ content = a.element.octets ∧
        c.asId = a.asId ∧ c.prefixes = a.blocks.flatMap Block.prefixes := by
  refine ⟨fun h ↦ ?_, fun h ↦ ?_⟩
  · obtain ⟨a, hlt, hcontent, rfl⟩ := exists_attestation_of_decode h
    exact ⟨a, hlt, hcontent, rfl, rfl⟩
  · obtain ⟨asId, prefixes⟩ := c
    obtain ⟨a, hlt, rfl, rfl, rfl⟩ := h
    exact decode_attestation hlt

/-- **Prefixes that have been read keep the rules**, and there are not more of them than octets. -/
theorem prefixes_of_decode {content : Octets} {c : RoaContent} (h : decode content = .ok c) :
    (∀ p ∈ c.prefixes, p.isValid = true) ∧ c.prefixes.length < 2 ^ 32 := by
  obtain ⟨a, hlt, -, rfl⟩ := exists_attestation_of_decode h
  refine ⟨fun p hp ↦ ?_, Nat.lt_of_le_of_lt a.length_content_prefixes_le hlt⟩
  obtain ⟨b, -, hp⟩ := List.mem_flatMap.mp hp
  obtain ⟨e, -, rfl⟩ := List.mem_map.mp hp
  exact Prefix.isValid_toPrefix e

/-- One IPv4 prefix of eight bits, which nothing longer may be announced of. -/
example :
    decode [0x30, 0x15, 0x02, 0x03, 0x00, 0xFD, 0xE8, 0x30, 0x0E, 0x30, 0x0C, 0x04, 0x02, 0x00,
      0x01, 0x30, 0x06, 0x30, 0x04, 0x03, 0x02, 0x00, 0x0A] =
      .ok ⟨65000, [⟨.ipv4, .v4 ⟨[10, 0, 0, 0], rfl⟩, 8, 8⟩]⟩ := by
  decide +kernel

end RoaContent

end Rpki
