import Mathlib.Data.List.Nodup
import Rpki.Proofs.Roa.Signed
import Rpki.Roa.Json

/-!
# The shape of a list of prefixes

The prefixes of a ROA come in blocks, one for each family, and neither a block nor the list of
blocks is empty.  When the blocks are joined, what is left of that is a shape of the list: it has
prefixes, and those of a family come one after the other, with none of the other family between
them.  `Roa.HasShape` says this, and every ROA that has been read from a signed object has it.

The transfer form and the fields carry the list without blocks, and what is checked of it is checked
prefix by prefix.  So a ROA from a signed object keeps its shape on the way, but it is not the shape
that is asked for: `Roa.shape_of_routes` says that any list of valid prefixes gets through.
-/

set_option autoImplicit false

namespace Rpki

/-- The prefixes of a family come one after the other. -/
def IsGrouped (prefixes : List Prefix) : Prop :=
  ∀ family, ∃ front block back, prefixes = front ++ block ++ back ∧
    (∀ p ∈ block, p.family = family) ∧ ∀ p ∈ front ++ back, p.family ≠ family

/-- Between two prefixes of one family there is none of another. -/
theorem IsGrouped.family_eq {prefixes : List Prefix} (h : IsGrouped prefixes) {p q r : Prefix}
    (hsub : List.Sublist [p, q, r] prefixes) (hfamily : p.family = r.family) :
    q.family = p.family := by
  obtain ⟨front, block, back, rfl, hblock, hothers⟩ := h p.family
  -- The first of the three is not in front of the block and the last is not behind it.
  have hp : p ∉ front := fun hp ↦ hothers p (List.mem_append_left _ hp) rfl
  have hr : r ∉ back := fun hr ↦ hothers r (List.mem_append_right _ hr) hfamily.symm
  obtain ⟨middle, last, hlast, hsub, hback⟩ := List.sublist_append_iff.mp hsub
  obtain ⟨first, middle, rfl, hfront, hmiddle⟩ := List.sublist_append_iff.mp hsub
  have hfirst : first = [] := by
    cases first with
    | nil => rfl
    | cons x first =>
      obtain rfl : p = x := (List.cons.inj hlast).1
      exact absurd (hfront.subset List.mem_cons_self) hp
  have hend : last = [] := by
    obtain rfl | ⟨last, x, rfl⟩ := List.eq_nil_or_concat last
    · rfl
    · have hx := congrArg List.getLast? hlast
      simp only [List.concat_eq_append, ← List.append_assoc, List.getLast?_concat] at hx
      obtain rfl : r = x := Option.some.inj hx
      exact absurd (hback.subset (by simp)) hr
  rw [hfirst, hend, List.nil_append, List.append_nil] at hlast
  exact hblock q (hmiddle.subset (hlast ▸ by simp))

namespace Attestation

open Der

/-- The prefixes of a block are of its family. -/
theorem Block.family_of_mem {b : Block} {p : Prefix} (h : p ∈ b.prefixes) :
    p.family = b.family := by
  obtain ⟨e, -, rfl⟩ := List.mem_map.mp h
  rfl

/-- **Blocks of distinct families are grouped** when they are joined. -/
theorem isGrouped_flatMap {blocks : List Block} (h : (blocks.map Block.family).Nodup) :
    IsGrouped (blocks.flatMap Block.prefixes) := by
  intro family
  by_cases hmem : family ∈ blocks.map Block.family
  · obtain ⟨b, hb, rfl⟩ := List.mem_map.mp hmem
    obtain ⟨before, behind, rfl⟩ := List.append_of_mem hb
    refine ⟨before.flatMap Block.prefixes, b.prefixes, behind.flatMap Block.prefixes, ?_,
      fun p hp ↦ Block.family_of_mem hp, fun p hp heq ↦ ?_⟩
    · rw [List.flatMap_append, List.flatMap_cons, List.append_assoc]
    · rw [← List.flatMap_append] at hp
      obtain ⟨b', hb', hp⟩ := List.mem_flatMap.mp hp
      rw [Block.family_of_mem hp] at heq
      rw [List.map_append, List.map_cons, List.nodup_middle, List.nodup_cons,
        ← List.map_append] at h
      exact h.1 (heq ▸ List.mem_map_of_mem hb')
  · refine ⟨blocks.flatMap Block.prefixes, [], [], by simp, by simp, fun p hp heq ↦ hmem ?_⟩
    rw [List.append_nil] at hp
    obtain ⟨b, hb, hp⟩ := List.mem_flatMap.mp hp
    rw [← heq, Block.family_of_mem hp]
    exact List.mem_map_of_mem hb

/-- An attestation has prefixes, since it has blocks and these have entries. -/
theorem prefixes_ne (a : Attestation) : a.content.prefixes ≠ [] := by
  intro hnil
  obtain ⟨b, hb⟩ := List.exists_mem_of_ne_nil _ ((count_iff a.nodup).mp a.count)
  exact b.entries_ne (List.map_eq_nil_iff.mp (List.flatMap_eq_nil_iff.mp hnil b hb))

end Attestation

namespace Roa

/-- The shape of a list of prefixes that comes in blocks. -/
structure HasShape (r : Roa) : Prop where
  prefixes_ne : r.prefixes ≠ []
  grouped : IsGrouped r.prefixes

/-- **A ROA from a signed object has the shape.** -/
theorem hasShape_of_ofSigned {path : String} {signed : SignedContent} {r : Roa}
    (h : ofSigned path signed = .ok r) : r.HasShape := by
  obtain ⟨ids, content, -, hcontent, rfl⟩ := ofSigned_eq_ok_iff.mp h
  obtain ⟨a, -, -, rfl⟩ := RoaContent.exists_attestation_of_decode hcontent
  exact ⟨a.prefixes_ne, Attestation.isGrouped_flatMap a.nodup⟩

/-! ## Transfer form and fields -/

theorem ofFields_eq_ok_iff {fields r : Roa} :
    ofFields fields = .ok r ↔ fields.WellFormed ∧ fields = r := by
  rw [ofFields, check_return_eq_ok_iff, check_eq_ok_iff]

/-- The lengths of the texts and of the list of a ROA fit into 64 bits. -/
structure HasLengths (r : Roa) : Prop where
  path_lt : r.path.utf8ByteSize < 2 ^ 64
  prefixes_lt : r.prefixes.length < 2 ^ 64
  ski_lt : r.ski.utf8ByteSize < 2 ^ 64
  aki_lt : r.aki.utf8ByteSize < 2 ^ 64
  aia_lt : (r.aia.getD "").utf8ByteSize < 2 ^ 64

/-- A ROA that keeps the rules comes back, with the whole second of its expiry. -/
theorem WellFormed.ofTransfer {r : Roa} (h : r.WellFormed) (hlengths : r.HasLengths) :
    Roa.ofTransfer r.toTransfer = .ok { r with expires := r.expires.wholeSecond } := by
  have hrules : WellFormed { r with expires := r.expires.wholeSecond } :=
    ⟨h.isValid_of_mem, h.ski_ne, h.aki_ne, h.aia_ne⟩
  exact ofTransfer_eq_ok_iff.mpr
    ⟨⟨hrules, rfl, hlengths.path_lt, hlengths.prefixes_lt, hlengths.ski_lt, hlengths.aki_lt,
      hlengths.aia_lt⟩, toTransfer_wholeSecond r⟩

/-- Any list of prefixes comes back in place of another one exactly if its prefixes are valid. -/
theorem exists_ofTransfer_withPrefixes_iff {r : Roa} {prefixes : List Prefix} (h : r.WellFormed)
    (hlengths : HasLengths { r with prefixes := prefixes }) :
    (∃ r', ofTransfer { r with prefixes := prefixes }.toTransfer = .ok r' ∧
        r'.prefixes = prefixes) ↔
      ∀ p ∈ prefixes, p.isValid = true := by
  refine ⟨fun hread ↦ ?_, fun hvalid ↦ ?_⟩
  · obtain ⟨r', hread, rfl⟩ := hread
    exact (ofTransfer_eq_ok_iff.mp hread).1.wellFormed.isValid_of_mem
  · have hrules : WellFormed { r with prefixes := prefixes } :=
      ⟨hvalid, h.ski_ne, h.aki_ne, h.aia_ne⟩
    exact ⟨_, hrules.ofTransfer hlengths, rfl⟩

/-- Any list of prefixes is accepted in place of another one exactly if its prefixes are valid. -/
theorem exists_ofFields_withPrefixes_iff {r : Roa} {prefixes : List Prefix} (h : r.WellFormed) :
    (∃ r', ofFields { r with prefixes := prefixes } = .ok r' ∧ r'.prefixes = prefixes) ↔
      ∀ p ∈ prefixes, p.isValid = true := by
  simp only [ofFields_eq_ok_iff]
  refine ⟨fun hread ↦ ?_, fun hvalid ↦ ?_⟩
  · obtain ⟨r', ⟨hrules, -⟩, -⟩ := hread
    exact hrules.isValid_of_mem
  · exact ⟨_, ⟨⟨hvalid, h.ski_ne, h.aki_ne, h.aia_ne⟩, rfl⟩, rfl⟩

/-! ## Opening the envelope -/

variable {m : Type → Type} [Monad m] [LawfulMonad m] [MonadAttach m] [LawfulMonadAttach m]
  {unwrap : Unwrapper m} {data : Octets} {path : String}

/-- **The shape of a ROA that has been parsed is kept, and it is not asked for.**  Whoever opens the
envelope, the ROA has the shape, and what comes back from its transfer form has it too.  But in
place of its prefixes any others are accepted, in the transfer form and in fields, if each of them
is valid by itself: none at all, or those of one family on both sides of one of the other. -/
theorem shape_of_routes {read : Logged (Except ParseError Roa)} {roa : Roa}
    (hread : MonadAttach.CanReturn (parse unwrap data path) read) (hvalue : read.value = .ok roa)
    (hlengths : roa.HasLengths) :
    roa.HasShape ∧ (∃ r, ofTransfer roa.toTransfer = .ok r ∧ r.HasShape) ∧
      ∀ prefixes : List Prefix, prefixes.length < 2 ^ 64 →
        ((∃ r, ofTransfer { roa with prefixes := prefixes }.toTransfer = .ok r ∧
            r.prefixes = prefixes) ↔ ∀ p ∈ prefixes, p.isValid = true) ∧
        ((∃ r, ofFields { roa with prefixes := prefixes } = .ok r ∧ r.prefixes = prefixes) ↔
          ∀ p ∈ prefixes, p.isValid = true) := by
  obtain ⟨read', certificate, hread', hvalue'⟩ := Logged.exists_of_canReturn_map_snd hread hvalue
  obtain ⟨signed, -, -, hsigned⟩ := exists_signed_of_canReturn hread' hvalue'
  have hshape := hasShape_of_ofSigned hsigned
  have hrules := wellFormed_of_ofSigned hsigned
  refine ⟨hshape, ⟨_, hrules.ofTransfer hlengths, hshape.1, hshape.2⟩, fun prefixes hlt ↦ ⟨?_, ?_⟩⟩
  · exact exists_ofTransfer_withPrefixes_iff hrules
      ⟨hlengths.path_lt, hlt, hlengths.ski_lt, hlengths.aki_lt, hlengths.aia_lt⟩
  · exact exists_ofFields_withPrefixes_iff hrules

/-- One prefix, and in its place none. -/
theorem shape_of_routes_one_prefix :
    let content : Octets :=
      [0x30, 0x15, 0x02, 0x03, 0x00, 0xFD, 0xE8, 0x30, 0x0E, 0x30, 0x0C, 0x04, 0x02, 0x00, 0x01,
       0x30, 0x06, 0x30, 0x04, 0x03, 0x02, 0x00, 0x0A]
    let a : Time := ⟨1631966400, 0, by decide, by decide, by decide⟩
    let certificate : Certificate := ⟨some "AB", some "CD", some "", a⟩
    let unwrap : Unwrapper Id := fun _ _ ↦ pure (.ok ⟨certificate, content⟩)
    let p : Prefix := ⟨.ipv4, .v4 ⟨[10, 0, 0, 0], rfl⟩, 8, 8⟩
    let roa : Roa := ⟨"a.roa", 65000, [p], "AB", "CD", none, a⟩
    let read := (parse unwrap [] "a.roa").run
    MonadAttach.CanReturn (parse unwrap [] "a.roa") read ∧ read.value = .ok roa ∧
      roa.HasLengths ∧ roa.HasShape ∧
      ∃ r, ofTransfer { roa with prefixes := [] }.toTransfer = .ok r ∧ r.prefixes = [] := by
  intro content a certificate unwrap p roa read
  have hread : MonadAttach.CanReturn (parse unwrap [] "a.roa") read := rfl
  have hvalue : read.value = .ok roa := by decide +kernel +zetaReduce
  have hlengths : roa.HasLengths := by
    refine ⟨?_, ?_, ?_, ?_, ?_⟩ <;> decide +kernel +zetaReduce
  obtain ⟨hshape, -, hany⟩ := shape_of_routes hread hvalue hlengths
  exact ⟨hread, hvalue, hlengths, hshape, (hany [] (by decide)).1.mpr (by simp)⟩

/-- **The transfer form and the fields admit lists without the shape**: one without prefixes, and
one where an IPv6 prefix is between two IPv4 prefixes. -/
theorem shape_not_checked :
    let a : Time := ⟨1631966400, 0, by decide, by decide, by decide⟩
    let p : Prefix := ⟨.ipv4, .v4 ⟨[10, 0, 0, 0], rfl⟩, 8, 8⟩
    let q : Prefix := ⟨.ipv6, .v6 ⟨[0x20, 0x01] ++ List.replicate 14 0, rfl⟩, 16, 16⟩
    let empty : Roa := ⟨"a.roa", 65000, [], "AB", "CD", none, a⟩
    let mixed : Roa := ⟨"a.roa", 65000, [p, q, p], "AB", "CD", none, a⟩
    (ofTransfer empty.toTransfer = .ok empty ∧ ofFields empty = .ok empty ∧ ¬ empty.HasShape) ∧
      ofTransfer mixed.toTransfer = .ok mixed ∧ ofFields mixed = .ok mixed ∧ ¬ mixed.HasShape := by
  intro a p q empty mixed
  refine ⟨⟨?_, ?_, fun h ↦ h.prefixes_ne rfl⟩, ?_, ?_, fun h ↦ ?_⟩
  · decide +kernel +zetaReduce
  · decide +kernel +zetaReduce
  · decide +kernel +zetaReduce
  · decide +kernel +zetaReduce
  · have hfamily : q.family = p.family := h.grouped.family_eq (List.Sublist.refl _) rfl
    exact nomatch hfamily

end Roa

end Rpki
