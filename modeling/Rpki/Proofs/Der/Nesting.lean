import Rpki.Proofs.Der.Sequence

/-!
# What is in a sequence

Reading a SEQUENCE cuts its octets into elements and adds or drops nothing.  Behind the tag stands
the length of the elements in the fewest octets that can say it (`Length.isShortest_octets`), and
behind that the elements follow each other in full.

A nested SEQUENCE can be read in two ways: as the element at a position, or as octets of its own.
The first looks at the content alone, the second steps over the whole value before.  Both have the
same elements (`Element.IsRegular.sequence_eq_ok_iff_decode`), however deep they are nested and
whether or not the values inside have their lengths in front.
-/

set_option autoImplicit false

namespace Rpki

namespace Der

/-! ## The shortest length -/

namespace Length

/-- The octets are a definite length, in however many octets.  The short form is the length itself.
The long form is the number of further octets, with the high bit set, and the length in these; the
number with all bits set is reserved. -/
inductive Denotes : Octets → Nat → Prop
  | short {n : Nat} {first : UInt8} (lt : first < 0x80) (eq : first.toNat = n) : Denotes [first] n
  | long {n : Nat} {first : UInt8} {o : Octets} (ne : o ≠ []) (lt : first < 0xFF)
      (count : first.toNat = 0x80 + o.length) (eq : o.bigEndian = n) : Denotes (first :: o) n

/-- The octets are a definite length, and no fewer octets are the same length. -/
structure IsShortest (o : Octets) (n : Nat) : Prop where
  denotes : Denotes o n
  length_le : ∀ other, Denotes other n → o.length ≤ other.length

theorem denotes_octets {n : Nat} (h : n < 2 ^ 32) : Denotes (octets n) n := by
  by_cases hsmall : n < 0x80
  · have hn : (UInt8.ofNat n).toNat = n :=
      UInt8.toNat_ofNat_of_lt' (Nat.lt_trans hsmall (by decide))
    rw [octets, if_pos hsmall]
    exact .short (by rw [UInt8.lt_iff_toNat_lt, hn]; exact hsmall) hn
  · obtain ⟨hpos, -, hfits⟩ := width_spec (by omega) h
    have hwidth := width_le n
    have hfirst := toNat_first n
    have hlength := Octets.length_ofBigEndian (width n) n
    rw [octets, if_neg hsmall]
    refine .long ?_ ?_ (by rw [hfirst, hlength]) (Octets.bigEndian_ofBigEndian hfits)
    · exact List.ne_nil_of_length_pos (by rw [hlength]; exact hpos)
    · rw [UInt8.lt_iff_toNat_lt, hfirst]
      exact Nat.lt_of_le_of_lt (Nat.add_le_add_left hwidth 0x80) (by decide)

/-- No fewer octets than the width can hold a number. -/
theorem width_le_of_lt {w n : Nat} (hpos : 1 ≤ w) (h : n < 2 ^ 32) (hlt : n < 256 ^ w) :
    width n ≤ w := by
  by_cases hone : width n ≤ 1
  · exact Nat.le_trans hone hpos
  have hge : 0x80 ≤ n := by
    refine Nat.not_lt.mp fun hsmall ↦ hone ?_
    rw [width, if_pos hsmall]
    exact Nat.zero_le 1
  obtain ⟨-, hleast, -⟩ := width_spec hge h
  rw [least, if_neg hone] at hleast
  have hpow : 256 ^ (width n - 1) < 256 ^ w := Nat.lt_of_le_of_lt hleast hlt
  have hexp := (Nat.pow_lt_pow_iff_right (by decide : 1 < 256)).mp hpow
  omega

/-- **The length that is written is the shortest one.** -/
theorem isShortest_octets {n : Nat} (h : n < 2 ^ 32) : IsShortest (octets n) n := by
  refine ⟨denotes_octets h, fun other hother ↦ ?_⟩
  rw [length_octets]
  cases hother with
  | @short _ first hlt heq =>
    have hsmall : n < 0x80 := heq ▸ UInt8.lt_iff_toNat_lt.mp hlt
    rw [width, if_pos hsmall]
    exact Nat.le_refl 1
  | @long _ first o hne hlt hcount heq =>
    have hfits : n < 256 ^ o.length := heq ▸ Octets.bigEndian_lt o
    exact Nat.succ_le_succ (width_le_of_lt (List.length_pos_iff.mpr hne) h hfits)

end Length

/-! ## Elements -/

namespace Element

theorem octets_ofSequence (es : Sequence) :
    (ofSequence es).octets =
      0x30 :: (Length.octets (es.flatMap octets).length ++ es.flatMap octets) := by
  have htag : Tag.octets .sequence true = [0x30] := by decide
  rw [octets, List.append_assoc, ofSequence, htag]
  rfl

/-- Elements that can be read are told apart by their octets. -/
theorem IsRegular.octets_inj {e e' : Element} (h : e.IsRegular) (h' : e'.IsRegular)
    (heq : e.octets = e'.octets) : e = e' := by
  have hread : read? e.octets = some (e, []) :=
    read?_eq_some_iff.mpr ⟨h, (List.append_nil _).symm⟩
  have hread' : read? e.octets = some (e', []) :=
    read?_eq_some_iff.mpr ⟨h', by rw [heq, List.append_nil]⟩
  exact (Prod.mk.inj (Option.some.inj (hread.symm.trans hread'))).1

/-- **A nested SEQUENCE has the elements that its octets have on their own.** -/
theorem IsRegular.sequence_eq_ok_iff_decode {e : Element} (h : e.IsRegular) {position : Nat}
    {inner : Sequence} :
    e.sequence position = .ok inner ↔ Sequence.decode e.octets = .ok inner := by
  rw [sequence_eq_ok_iff, Sequence.decode_eq_ok_iff]
  refine ⟨fun hseq ↦ ?_, fun hdecode ↦ ?_⟩
  · obtain ⟨hinner, rfl⟩ := hseq
    exact ⟨hinner, h.lt, rfl⟩
  · obtain ⟨hinner, hlt, heq⟩ := hdecode
    exact ⟨hinner, h.octets_inj (isRegular_ofSequence hinner hlt) heq⟩

end Element

namespace Sequence

/-- **Reading a SEQUENCE loses nothing.**  Its octets are the tag, the shortest length and the
octets of its elements one after the other.  Each element says in its own header what has been kept
of it.  And the elements at any position are those that the octets there have on their own, if they
are a SEQUENCE. -/
theorem elements_of_decode {data : Octets} {es : Sequence} (h : decode data = .ok es) :
    (∃ length, Length.IsShortest length (es.flatMap Element.octets).length ∧
        data = 0x30 :: (length ++ es.flatMap Element.octets)) ∧
      (∀ e ∈ es, 2 ≤ e.octets.length ∧
        Header.read? e.octets =
          some (⟨e.tag, e.constructed, .definite e.content.length⟩, e.content)) ∧
      ∀ position inner, es.sequence position = .ok inner ↔
        ∃ e, es[position]? = some e ∧ e.tag = .sequence ∧ e.constructed = true ∧
          decode e.octets = .ok inner := by
  obtain ⟨hregular, hlt, rfl⟩ := decode_eq_ok_iff.mp h
  refine ⟨⟨_, Length.isShortest_octets hlt, Element.octets_ofSequence es⟩,
    fun e he ↦ ⟨e.two_le_length_octets, (hregular e he).header_octets⟩,
    fun position inner ↦ ⟨fun hseq ↦ ?_, fun hnested ↦ ?_⟩⟩
  · obtain ⟨hinner, hget⟩ := sequence_eq_ok_iff.mp hseq
    have he := hregular _ (List.mem_of_getElem? hget)
    have hself : (Element.ofSequence inner).sequence position = .ok inner :=
      Element.sequence_eq_ok_iff.mpr ⟨hinner, rfl⟩
    exact ⟨_, hget, rfl, rfl, he.sequence_eq_ok_iff_decode.mp hself⟩
  · obtain ⟨e, hget, -, -, hdecode⟩ := hnested
    have he := hregular e (List.mem_of_getElem? hget)
    have hself : e.sequence position = .ok inner := he.sequence_eq_ok_iff_decode.mpr hdecode
    obtain ⟨hinner, rfl⟩ := Element.sequence_eq_ok_iff.mp hself
    exact sequence_eq_ok_iff.mpr ⟨hinner, hget⟩

/-- An INTEGER and a nested SEQUENCE, with an indefinite value two levels further down. -/
theorem elements_of_decode_nested :
    let data : Octets :=
      [0x30, 0x0B, 0x02, 0x01, 0x05, 0x30, 0x06, 0xA0, 0x04, 0x30, 0x80, 0x00, 0x00]
    let es : Sequence :=
      [⟨.integer, false, [0x05]⟩, ⟨.sequence, true, [0xA0, 0x04, 0x30, 0x80, 0x00, 0x00]⟩]
    let inner : Sequence := [⟨.context0, true, [0x30, 0x80, 0x00, 0x00]⟩]
    decode data = .ok es ∧
      decode [0x30, 0x06, 0xA0, 0x04, 0x30, 0x80, 0x00, 0x00] = .ok inner ∧
      es.sequence 1 = .ok inner := by
  intro data es inner
  have hdata : decode data = .ok es := by decide +kernel +zetaReduce
  have hinner : decode [0x30, 0x06, 0xA0, 0x04, 0x30, 0x80, 0x00, 0x00] = .ok inner := by
    decide +kernel +zetaReduce
  obtain ⟨-, -, hnested⟩ := elements_of_decode hdata
  exact ⟨hdata, hinner, (hnested 1 inner).mpr ⟨_, rfl, rfl, rfl, hinner⟩⟩

end Sequence

end Der

end Rpki
