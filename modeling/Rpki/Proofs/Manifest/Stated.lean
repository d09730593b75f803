import Rpki.Proofs.Manifest.Draft
import Rpki.Proofs.Time.Correspondence

/-!
# Lengths that are stated in advance

Whoever writes a value says how long it will be before there is any of it, and the headers around it
add up what has been said.  A single length that is wrong makes all of them wrong, and whatever is
read behind that header is read from the wrong place.

A number counts its octets.  A time does not: it says fifteen, which leaves four for the year, and
the sign of a negative one takes the place of a digit.  So the length of a time is true in the
years -999 to 9999 and too small in all others (`GeneralizedTime.statedLength_eq_length_iff`).

What is counted never exceeds what is written, so errors do not cancel out, and the length of a
sequence is true exactly if those of all its parts are (`Encoded.sum_stated_eq_length_iff`).  A
sequence that is longer than its header says is not read at all
(`Encoded.stated_eq_length_of_decode`).  With that, what is written for a draft is a sequence of
five elements exactly if both of its times are in those years (`Draft.decode_octets_eq_ok_iff`).
-/

set_option autoImplicit false

namespace Rpki

open Der

/-! ## Numbers -/

namespace ManifestNumber

/-- The length that is counted for the content of a number. -/
def statedLength (n : ManifestNumber) : Nat := n.significant.length + if n.needsPad then 1 else 0

theorem statedLength_eq_length (n : ManifestNumber) : n.statedLength = n.content.length := by
  rw [statedLength, content]
  split
  · rw [List.length_cons]
  · rfl

theorem encode_eq_value (n : ManifestNumber) :
    n.encode = .value .integer false n.statedLength n.content := by
  rw [statedLength_eq_length]
  rfl

end ManifestNumber

/-! ## Times -/

namespace Decimal

theorem le_length_padded (width n : Nat) : width ≤ (padded width n).length := by
  rw [padded, List.length_append, List.length_replicate]
  omega

/-- The width is kept exactly if the number has no more digits. -/
theorem length_padded_eq_iff {width n : Nat} (hwidth : 0 < width) :
    (padded width n).length = width ↔ n < 10 ^ width := by
  refine ⟨fun h ↦ ?_, length_padded hwidth⟩
  rw [padded, List.length_append, List.length_replicate] at h
  exact (Nat.length_toDigits_le_iff (by decide) hwidth).mp (show (digits n).length ≤ width by omega)

end Decimal

namespace GeneralizedTime

theorem four_le_length_yearText (year : Int) : 4 ≤ (yearText year).length := by
  rw [yearText]
  split
  · exact Decimal.le_length_padded 4 _
  · exact Nat.succ_le_succ (Decimal.le_length_padded 3 _)

/-- A year takes four characters exactly if it has at most four digits, or three and a sign. -/
theorem length_yearText_eq_iff {year : Int} :
    (yearText year).length = 4 ↔ -999 ≤ year ∧ year ≤ 9999 := by
  rw [yearText]
  split
  · rw [Decimal.length_padded_eq_iff (by decide)]
    omega
  · rw [List.length_cons, Nat.succ_inj, Decimal.length_padded_eq_iff (by decide)]
    omega

/-- Everything but the year has a fixed width. -/
theorem length_content_eq (t : Time) :
    (content t).length = (yearText t.civil.year).length + 11 := by
  obtain ⟨⟨-, hmonth, -, hday⟩, hhour, hminute, hsecond⟩ := t.valid_civil
  have hlength := Calendar.daysInMonth_le t.civil.year t.civil.month
  have htwo {n : Nat} (h : n < 100) : (Decimal.padded 2 n).length = 2 :=
    Decimal.length_padded (by decide) h
  rw [content, List.length_map, text]
  simp only [List.length_append, List.length_singleton]
  rw [htwo (show t.civil.month < 100 by omega), htwo (show t.civil.day < 100 by omega),
    htwo (show t.civil.hour < 100 by omega), htwo (show t.civil.minute < 100 by omega),
    htwo (show t.civil.second < 100 by omega)]

theorem statedLength_le_length (t : Time) : statedLength ≤ (content t).length := by
  have hyear := four_le_length_yearText t.civil.year
  rw [length_content_eq, statedLength]
  omega

/-- **The length of a time is true exactly in the years -999 to 9999.** -/
theorem statedLength_eq_length_iff {t : Time} :
    statedLength = (content t).length ↔ -999 ≤ t.civil.year ∧ t.civil.year ≤ 9999 := by
  rw [← length_yearText_eq_iff, length_content_eq, statedLength]
  omega

end GeneralizedTime

/-! ## Values and sequences -/

namespace Der.Encoded

/-- What is counted for a value differs from its octets by as much as the length of its content. -/
theorem stated_value (tag : Tag) (constructed : Bool) (stated : Nat) (content : Octets) :
    (value tag constructed stated content).stated + content.length =
      (value tag constructed stated content).octets.length + stated := by
  simp only [value, List.length_append]
  omega

theorem stated_primitive (tag : Tag) (content : Octets) :
    (primitive tag content).stated = (primitive tag content).octets.length := by
  have h := stated_value tag false content.length content
  exact Nat.add_right_cancel h

theorem stated_generalizedTime_le (t : Time) :
    (generalizedTime t).stated ≤ (generalizedTime t).octets.length := by
  have h := stated_value .generalizedTime false GeneralizedTime.statedLength
    (GeneralizedTime.content t)
  have hle := GeneralizedTime.statedLength_le_length t
  rw [generalizedTime]
  omega

theorem stated_generalizedTime_eq_iff {t : Time} :
    (generalizedTime t).stated = (generalizedTime t).octets.length ↔
      -999 ≤ t.civil.year ∧ t.civil.year ≤ 9999 := by
  have h := stated_value .generalizedTime false GeneralizedTime.statedLength
    (GeneralizedTime.content t)
  rw [← GeneralizedTime.statedLength_eq_length_iff, generalizedTime]
  omega

theorem sum_stated_le_length {parts : List Encoded}
    (h : ∀ v ∈ parts, v.stated ≤ v.octets.length) :
    (parts.map stated).foldr (· + ·) 0 ≤ (parts.flatMap octets).length := by
  induction parts with
  | nil => exact Nat.le_refl 0
  | cons v parts ih =>
    rw [List.forall_mem_cons] at h
    rw [List.map_cons, List.foldr_cons, List.flatMap_cons, List.length_append]
    exact Nat.add_le_add h.1 (ih h.2)

/-- **A sum of lengths that are not too large is true exactly if each of them is.** -/
theorem sum_stated_eq_length_iff {parts : List Encoded}
    (h : ∀ v ∈ parts, v.stated ≤ v.octets.length) :
    (parts.map stated).foldr (· + ·) 0 = (parts.flatMap octets).length ↔
      ∀ v ∈ parts, v.stated = v.octets.length := by
  induction parts with
  | nil => exact ⟨fun _ ↦ nofun, fun _ ↦ rfl⟩
  | cons v parts ih =>
    rw [List.forall_mem_cons] at h ⊢
    have hv := h.1
    have hparts := sum_stated_le_length h.2
    rw [List.map_cons, List.foldr_cons, List.flatMap_cons, List.length_append, ← ih h.2]
    omega

/-- **A value that is read as an element has a true length.**  The header that is read is the one
that was written, and the content is all that is behind it. -/
theorem stated_eq_length_of_octets_eq {tag : Tag} {constructed : Bool} {stated : Nat}
    {content : Octets} {e : Element} (htag : tag.IsRegular) (hlt : stated < 2 ^ 32)
    (he : e.IsRegular) (h : (value tag constructed stated content).octets = e.octets) :
    stated = content.length := by
  have hwritten : Header.read? (value tag constructed stated content).octets =
      some (⟨tag, constructed, .definite stated⟩, content) :=
    Header.read?_definite_iff.mpr ⟨htag, hlt, rfl⟩
  rw [h, he.header_octets, Option.some.injEq, Prod.mk.injEq, Header.mk.injEq] at hwritten
  obtain ⟨⟨-, -, hlength⟩, hcontent⟩ := hwritten
  rw [← hcontent, Length.definite.inj hlength]

/-- If a sequence can be read, then all lengths in it are true. -/
theorem stated_eq_length_of_decode {parts : List Encoded} {es : Sequence}
    (h : ∀ v ∈ parts, v.stated ≤ v.octets.length) (hlt : (sequence parts).octets.length < 2 ^ 32)
    (hread : Sequence.decode (sequence parts).octets = .ok es) :
    ∀ v ∈ parts, v.stated = v.octets.length := by
  obtain ⟨hes, hlength, hoctets⟩ := Sequence.decode_eq_ok_iff.mp hread
  have hle := sum_stated_le_length h
  have hcontent : (parts.flatMap octets).length ≤ (sequence parts).octets.length := by
    simp only [sequence, value, List.length_append]
    omega
  rw [← sum_stated_eq_length_iff h]
  exact stated_eq_length_of_octets_eq (Kind.isRegular_tag .sequence) (by omega)
    (Element.isRegular_ofSequence hes hlength) hoctets

end Der.Encoded

/-! ## Drafts -/

namespace Draft

/-- The five elements of a draft. -/
def elements (d : Draft) : Sequence :=
  [⟨.integer, false, d.number.content⟩,
   ⟨.generalizedTime, false, GeneralizedTime.content d.thisUpdate⟩,
   ⟨.generalizedTime, false, GeneralizedTime.content d.nextUpdate⟩,
   ⟨.objectIdentifier, false, Oid.sha256.octets⟩,
   .ofSequence (d.files.map pairElement)]

theorem regularIfShort_elements (d : Draft) : ∀ x ∈ d.elements, x.RegularIfShort := by
  have hpair (pair : String × Octets) : (pairElement pair).RegularIfShort := by
    refine Element.regularIfShort_ofSequence fun x hx ↦ ?_
    simp only [List.mem_cons, List.not_mem_nil, or_false] at hx
    rcases hx with rfl | rfl
    · exact Element.regularIfShort_primitive .ia5String _
    · exact Element.regularIfShort_primitive .bitString _
  intro x hx
  simp only [elements, List.mem_cons, List.not_mem_nil, or_false] at hx
  rcases hx with rfl | rfl | rfl | rfl | rfl
  · exact Element.regularIfShort_primitive .integer _
  · exact Element.regularIfShort_primitive .generalizedTime _
  · exact Element.regularIfShort_primitive .generalizedTime _
  · exact Element.regularIfShort_primitive .objectIdentifier _
  · refine Element.regularIfShort_ofSequence fun x hx ↦ ?_
    obtain ⟨pair, -, rfl⟩ := List.mem_map.mp hx
    exact hpair pair

/-- The lengths of both times are true. -/
def HasTrueLengths (d : Draft) : Prop :=
  (-999 ≤ d.thisUpdate.civil.year ∧ d.thisUpdate.civil.year ≤ 9999) ∧
    -999 ≤ d.nextUpdate.civil.year ∧ d.nextUpdate.civil.year ≤ 9999

theorem writes_of_hasTrueLengths {d : Draft} (h : d.HasTrueLengths) :
    Encoded.Writes d.encode (.ofSequence d.elements) :=
  Encoded.writes_sequence
    (.cons (Encoded.writes_primitive _ _)
      (.cons (Encoded.writes_value (GeneralizedTime.statedLength_eq_length_iff.mpr h.1))
        (.cons (Encoded.writes_value (GeneralizedTime.statedLength_eq_length_iff.mpr h.2))
          (.cons (Encoded.writes_primitive _ _) (.cons (writes_pairs d.files) .nil)))))

/-- **What is written for a draft is a sequence exactly if the lengths of both times are true**, and
then it is the sequence of its five elements. -/
theorem decode_octets_eq_ok_iff {d : Draft} (hlt : d.octets.length < 2 ^ 32) {es : Sequence} :
    Sequence.decode d.octets = .ok es ↔ d.HasTrueLengths ∧ es = d.elements := by
  have htrue (h : d.HasTrueLengths) : Sequence.decode d.octets = .ok d.elements := by
    have hoctets : d.octets = (Element.ofSequence d.elements).octets :=
      (writes_of_hasTrueLengths h).octets_eq
    have hcontent : (Element.ofSequence d.elements).content.length < 2 ^ 32 := by
      rw [hoctets] at hlt
      exact Nat.lt_of_le_of_lt (Element.length_content_le _) hlt
    exact Sequence.decode_eq_ok_iff.mpr
      ⟨Element.isRegular_of_mem d.regularIfShort_elements hcontent, hcontent, hoctets⟩
  refine ⟨fun h ↦ ?_, fun h ↦ by rw [h.2, htrue h.1]⟩
  have hle : ∀ v ∈ [d.number.encode, .generalizedTime d.thisUpdate, .generalizedTime d.nextUpdate,
      .oid .sha256, .sequence (d.files.map encodePair)], v.stated ≤ v.octets.length := by
    intro v hv
    simp only [List.mem_cons, List.not_mem_nil, or_false] at hv
    rcases hv with rfl | rfl | rfl | rfl | rfl
    · exact Nat.le_of_eq (Encoded.stated_primitive _ _)
    · exact Encoded.stated_generalizedTime_le _
    · exact Encoded.stated_generalizedTime_le _
    · exact Nat.le_of_eq (Encoded.stated_primitive _ _)
    · have hfiles := writes_pairs d.files
      rw [hfiles.stated_eq, hfiles.octets_eq]
  have hall := Encoded.stated_eq_length_of_decode hle hlt h
  have hyears : d.HasTrueLengths :=
    ⟨Encoded.stated_generalizedTime_eq_iff.mp (hall _ (by simp)),
      Encoded.stated_generalizedTime_eq_iff.mp (hall _ (by simp))⟩
  exact ⟨hyears, Except.ok.inj (h.symm.trans (htrue hyears))⟩

/-- **Lengths that are stated are true, but for the times of a year with more than four digits, or
with four and a sign.**  The length of a number is always the one of its content.  That of a time is
in the years -999 to 9999, and what is written for a draft is a sequence of five elements exactly if
both of its times are in these. -/
theorem stated_lengths (number : ManifestNumber) (a b : Time) (pairs : List (String × Octets))
    (hlt : ((start number a b).pushPairs pairs).octets.length < 2 ^ 32) :
    (∀ n : ManifestNumber, n.encode = .value .integer false n.statedLength n.content ∧
        n.statedLength = n.content.length) ∧
      (∀ t : Time, GeneralizedTime.statedLength = (GeneralizedTime.content t).length ↔
        -999 ≤ t.civil.year ∧ t.civil.year ≤ 9999) ∧
      ∀ es, Sequence.decode ((start number a b).pushPairs pairs).octets = .ok es ↔
        ((-999 ≤ a.civil.year ∧ a.civil.year ≤ 9999) ∧
          -999 ≤ b.civil.year ∧ b.civil.year ≤ 9999) ∧
        es = [⟨.integer, false, number.content⟩,
          ⟨.generalizedTime, false, GeneralizedTime.content a⟩,
          ⟨.generalizedTime, false, GeneralizedTime.content b⟩,
          ⟨.objectIdentifier, false, Oid.sha256.octets⟩,
          .ofSequence (pairs.map pairElement)] := by
  refine ⟨fun n ↦ ⟨n.encode_eq_value, n.statedLength_eq_length⟩,
    fun t ↦ GeneralizedTime.statedLength_eq_length_iff, fun es ↦ ?_⟩
  rw [decode_octets_eq_ok_iff hlt, pushPairs_eq]
  rfl

/-- A draft from the first second of the year 0 to the last one of the year 9999, with a name that
is not ASCII and a hash of one octet. -/
theorem stated_lengths_four_digits :
    let a : Time := ⟨-62167219200, 0, by decide, by decide, by decide⟩
    let b : Time := ⟨253402300799, 0, by decide, by decide, by decide⟩
    let pairs : List (String × Octets) := [("ü", [0xAB])]
    let d : Draft := (start (.ofNat 200) a b).pushPairs pairs
    d.octets.length < 2 ^ 32 ∧
      Sequence.decode d.octets = .ok
        [⟨.integer, false, [0x00, 0xC8]⟩, ⟨.generalizedTime, false, GeneralizedTime.content a⟩,
          ⟨.generalizedTime, false, GeneralizedTime.content b⟩,
          ⟨.objectIdentifier, false, Oid.sha256.octets⟩, .ofSequence (pairs.map pairElement)] := by
  intro a b pairs d
  have hlt : d.octets.length < 2 ^ 32 := by decide +kernel +zetaReduce
  have ha : -999 ≤ a.civil.year ∧ a.civil.year ≤ 9999 := by decide +kernel +zetaReduce
  have hb : -999 ≤ b.civil.year ∧ b.civil.year ≤ 9999 := by decide +kernel +zetaReduce
  obtain ⟨-, -, hdecode⟩ := stated_lengths (.ofNat 200) a b pairs hlt
  exact ⟨hlt, (hdecode _).mpr ⟨⟨ha, hb⟩, rfl⟩⟩

/-- The first second of the year 10000 has sixteen octets, of which fifteen are stated, and a draft
that is valid for this second is no sequence. -/
theorem stated_length_false_of_year_10000 :
    ∃ t : Time, t.IsMade ∧ t.seconds = 253402300800 ∧ GeneralizedTime.statedLength = 15 ∧
      (GeneralizedTime.content t).length = 16 ∧
      ((start (.ofNat 1) t t).pushPairs []).octets.length < 2 ^ 32 ∧
      ∀ es, Sequence.decode ((start (.ofNat 1) t t).pushPairs []).octets ≠ .ok es := by
  let t : Time := ⟨253402300800, 0, by decide, by decide, by decide⟩
  have hmade : t.IsMade :=
    .ofCivil (c := ⟨⟨10000, 1, 1⟩, 0, 0, 0⟩) (by decide +kernel +zetaReduce)
  have hdecode : Sequence.decode ((start (.ofNat 1) t t).pushPairs []).octets =
      .error ⟨none, .decoding⟩ := by
    decide +kernel +zetaReduce
  refine ⟨t, hmade, rfl, rfl, by decide +kernel +zetaReduce, by decide +kernel +zetaReduce,
    fun es ↦ ?_⟩
  rw [hdecode]
  exact nofun

end Draft

end Rpki
