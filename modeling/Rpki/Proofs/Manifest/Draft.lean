import Rpki.Manifest.Draft
import Rpki.Proofs.Der.Encoded
import Rpki.Proofs.Manifest.Content

/-!
# Drafts and what is read from them

Writing a draft is separate from reading content: one adds up lengths that it states in advance and
does without checks, the other takes octets apart and checks all of them.  The two meet in
`ManifestContent.element`, since `ManifestContent.writes_draft` says that it is what is written.

* `ManifestContent.octets_of_decode`: content that has been read is written again octet for octet.
* `Draft.decode_octets`: what has been written for a draft is read again, with whole seconds for its
  times and everything else as it was.
-/

set_option autoImplicit false

namespace Rpki

open Der

/-! ## Filling in a draft -/

namespace Draft

/-- A draft without files. -/
def start (number : ManifestNumber) (thisUpdate nextUpdate : Time) : Draft :=
  ⟨number, thisUpdate, nextUpdate, []⟩

/-- Puts entries at the end of the list, one after the other. -/
def pushEntries (d : Draft) (entries : List FileEntry) : Draft := entries.foldl push d

/-- Puts names and hashes at the end of the list, one after the other. -/
def pushPairs (d : Draft) (pairs : List (String × Octets)) : Draft :=
  pairs.foldl (fun d p ↦ d.pushPair p.1 p.2) d

theorem pushPairs_eq (d : Draft) (pairs : List (String × Octets)) :
    d.pushPairs pairs = { d with files := d.files ++ pairs } := by
  induction pairs generalizing d with
  | nil => rw [List.append_nil, pushPairs, List.foldl_nil]
  | cons p pairs ih =>
    have hstep : d.pushPairs (p :: pairs) = (d.pushPair p.1 p.2).pushPairs pairs := rfl
    rw [hstep, ih, pushPair, List.append_assoc, List.singleton_append]

/-- Entries are put in the list as their names and hashes. -/
theorem pushEntries_eq (d : Draft) (entries : List FileEntry) :
    d.pushEntries entries = d.pushPairs (entries.map fun e ↦ (e.file, e.hash.val)) := by
  rw [pushEntries, pushPairs, List.foldl_map]
  rfl

/-- Names with hashes of the right length are those of entries. -/
theorem exists_entries {pairs : List (String × Octets)} (h : ∀ p ∈ pairs, p.2.length = 32) :
    ∃ entries : List FileEntry, entries.map (fun e ↦ (e.file, e.hash.val)) = pairs := by
  induction pairs with
  | nil => exact ⟨[], rfl⟩
  | cons p pairs ih =>
    obtain ⟨entries, hentries⟩ := ih fun q hq ↦ h q (List.mem_cons_of_mem _ hq)
    exact ⟨⟨p.1, p.2, h p List.mem_cons_self⟩ :: entries, by rw [List.map_cons, hentries]⟩

/-! ## Writing -/

/-- The SEQUENCE of a name and a hash. -/
def pairElement (pair : String × Octets) : Element :=
  .ofSequence [⟨.ia5String, false, Octets.ofString pair.1⟩, ⟨.bitString, false, 0 :: pair.2⟩]

theorem writes_pair (pair : String × Octets) :
    Encoded.Writes (encodePair pair) (pairElement pair) :=
  Encoded.writes_sequence
    (.cons (Encoded.writes_primitive _ _) (.cons (Encoded.writes_primitive _ _) .nil))

theorem writes_pairs (pairs : List (String × Octets)) :
    Encoded.Writes (.sequence (pairs.map encodePair)) (.ofSequence (pairs.map pairElement)) := by
  refine Encoded.writes_sequence ?_
  induction pairs with
  | nil => exact .nil
  | cons pair pairs ih => exact .cons (writes_pair pair) ih

end Draft

namespace ManifestContent

/-- The draft of some content is the one that the files have been put in. -/
theorem draft_eq (c : ManifestContent) :
    c.draft =
      (Draft.start c.number c.window.thisUpdate c.window.nextUpdate).pushEntries c.files := by
  rw [Draft.pushEntries_eq, Draft.pushPairs_eq]
  rfl

/-- **The octets of a draft are those of the element that its content is read from**, unless a year
has more or less than four digits. -/
theorem writes_draft {c : ManifestContent}
    (hthis : 0 ≤ c.window.thisUpdate.civil.year ∧ c.window.thisUpdate.civil.year ≤ 9999)
    (hnext : 0 ≤ c.window.nextUpdate.civil.year ∧ c.window.nextUpdate.civil.year ≤ 9999) :
    Encoded.Writes c.draft.encode c.element := by
  have hfiles : Encoded.Writes (.sequence (c.draft.files.map Draft.encodePair))
      (.ofSequence (c.files.map FileEntry.element)) := by
    have hpairs := Draft.writes_pairs c.draft.files
    rwa [draft, List.map_map (g := Draft.pairElement)] at hpairs
  exact Encoded.writes_sequence
    (.cons (Encoded.writes_primitive _ _) (.cons (Encoded.writes_generalizedTime hthis)
      (.cons (Encoded.writes_generalizedTime hnext) (.cons (Encoded.writes_primitive _ _)
        (.cons hfiles .nil)))))

/-! ## Both ways -/

/-- **Content has one spelling.**  What has been read is written again octet for octet, so no other
octets are read as the same. -/
theorem octets_of_decode {content : Octets} {c : ManifestContent} (h : decode content = .ok c) :
    ((Draft.start c.number c.window.thisUpdate c.window.nextUpdate).pushEntries c.files).octets =
        content ∧
      ∀ other, decode other = .ok c → other = content := by
  obtain ⟨hc, rfl⟩ := decode_eq_ok_iff.mp h
  constructor
  · rw [← draft_eq]
    exact (writes_draft hc.window.thisYear hc.window.nextYear).octets_eq
  · intro other hother
    exact (decode_eq_ok_iff.mp hother).2

/-- Content with number 200, a day in September 2021 and the file `a.roa`. -/
theorem octets_of_decode_one_file :
    let content : Octets :=
      [0x30, 0x5F, 0x02, 0x02, 0x00, 0xC8,
       0x18, 0x0F, 0x32, 0x30, 0x32, 0x31, 0x30, 0x39, 0x31, 0x37,
       0x31, 0x32, 0x30, 0x30, 0x30, 0x30, 0x5A,
       0x18, 0x0F, 0x32, 0x30, 0x32, 0x31, 0x30, 0x39, 0x31, 0x38,
       0x31, 0x32, 0x30, 0x30, 0x30, 0x30, 0x5A,
       0x06, 0x09, 0x60, 0x86, 0x48, 0x01, 0x65, 0x03, 0x04, 0x02, 0x01,
       0x30, 0x2C, 0x30, 0x2A, 0x16, 0x05, 0x61, 0x2E, 0x72, 0x6F, 0x61, 0x03, 0x21, 0x00] ++
        List.replicate 32 0xAB
    let c : ManifestContent :=
      ⟨.ofNat 200,
       ⟨⟨1631880000, 0, by decide, by decide, by decide⟩,
        ⟨1631966400, 0, by decide, by decide, by decide⟩⟩,
       [⟨"a.roa", List.replicate 32 0xAB, rfl⟩]⟩
    decode content = .ok c ∧
      ((Draft.start c.number c.window.thisUpdate c.window.nextUpdate).pushEntries c.files).octets =
        content ∧
      ∀ other, decode other = .ok c → other = content :=
  ⟨by decide +kernel, octets_of_decode (by decide +kernel)⟩

end ManifestContent

/-- **What is written for a draft is read.**  The times lose their fraction; one that is not in a
leap second is truncated, and a leap second becomes the second before.  Nothing else is lost. -/
theorem Draft.decode_octets {number : ManifestNumber} {a b : Time} {pairs : List (String × Octets)}
    (ha : 0 ≤ a.civil.year ∧ a.civil.year ≤ 9999) (hb : 0 ≤ b.civil.year ∧ b.civil.year ≤ 9999)
    (hle : a.truncated ≤ b.truncated)
    (hpairs : ∀ p ∈ pairs, (∀ ch ∈ p.1.toList, ch.toNat < 0x80) ∧ FileName.check p.1 = .ok () ∧
      p.2.length = 32)
    (hlt : ((Draft.start number a b).pushPairs pairs).octets.length < 2 ^ 32) :
    ∃ c, ManifestContent.decode ((Draft.start number a b).pushPairs pairs).octets = .ok c ∧
      c.number = number ∧ c.window = ⟨a.wholeSecond, b.wholeSecond⟩ ∧
      (a.nanos < 1000000000 → c.window.thisUpdate = a.truncated) ∧
      (b.nanos < 1000000000 → c.window.nextUpdate = b.truncated) ∧
      c.files.map (fun e ↦ (e.file, e.hash.val)) = pairs := by
  obtain ⟨entries, rfl⟩ := exists_entries fun p hp ↦ (hpairs p hp).2.2
  let c : ManifestContent := ⟨number, ⟨a.wholeSecond, b.wholeSecond⟩, entries⟩
  have hdraft : (start number a b).pushPairs (entries.map fun e ↦ (e.file, e.hash.val)) =
      (⟨number, ⟨a, b⟩, entries⟩ : ManifestContent).draft := by
    rw [ManifestContent.draft_eq, pushEntries_eq]
  -- The fraction of a time is not written.
  have hoctets : ((start number a b).pushPairs (entries.map fun e ↦ (e.file, e.hash.val))).octets =
      c.element.octets := by
    rw [hdraft]
    exact (ManifestContent.writes_draft (c := ⟨number, ⟨a, b⟩, entries⟩) ha hb).octets_eq
  have hc : c.IsReadable := by
    refine ⟨⟨ha, hb, rfl, rfl, ?_⟩, ?_, ?_⟩
    · exact Time.wholeSecond_le_wholeSecond (Time.seconds_le_of_truncated_le hle)
    · intro e he
      obtain ⟨hascii, hcheck, -⟩ := hpairs _ (List.mem_map_of_mem he)
      exact ⟨hascii, (FileName.check_eq_ok_iff _).mp hcheck⟩
    · rw [hoctets] at hlt
      exact Nat.lt_of_le_of_lt c.element.length_content_le hlt
  refine ⟨c, ?_, rfl, rfl, fun hn ↦ ?_, fun hn ↦ ?_, rfl⟩
  · exact ManifestContent.decode_eq_ok_iff.mpr ⟨hc, hoctets⟩
  · exact (Time.truncated_eq_wholeSecond_iff.mpr hn).symm
  · exact (Time.truncated_eq_wholeSecond_iff.mpr hn).symm

/-- A draft whose first time has a fraction. -/
theorem Draft.decode_octets_one_file :
    let a : Time := ⟨1631880000, 500000000, by decide, by decide, by decide⟩
    let b : Time := ⟨1631966400, 0, by decide, by decide, by decide⟩
    let pairs : List (String × Octets) := [("a.roa", List.replicate 32 0xAB)]
    let d : Draft := (start (.ofNat 200) a b).pushPairs pairs
    ((0 ≤ a.civil.year ∧ a.civil.year ≤ 9999) ∧ (0 ≤ b.civil.year ∧ b.civil.year ≤ 9999) ∧
      a.truncated ≤ b.truncated ∧
      (∀ p ∈ pairs, (∀ ch ∈ p.1.toList, ch.toNat < 0x80) ∧ FileName.check p.1 = .ok () ∧
        p.2.length = 32) ∧
      d.octets.length < 2 ^ 32) ∧
    ∃ c, ManifestContent.decode d.octets = .ok c ∧ c.number = .ofNat 200 ∧
      c.window = ⟨a.wholeSecond, b.wholeSecond⟩ ∧
      (a.nanos < 1000000000 → c.window.thisUpdate = a.truncated) ∧
      (b.nanos < 1000000000 → c.window.nextUpdate = b.truncated) ∧
      c.files.map (fun e ↦ (e.file, e.hash.val)) = pairs := by
  intro a b pairs d
  have ha : 0 ≤ a.civil.year ∧ a.civil.year ≤ 9999 := by decide +kernel +zetaReduce
  have hb : 0 ≤ b.civil.year ∧ b.civil.year ≤ 9999 := by decide +kernel +zetaReduce
  have hle : a.truncated ≤ b.truncated := by decide +kernel +zetaReduce
  have hpairs : ∀ p ∈ pairs, (∀ ch ∈ p.1.toList, ch.toNat < 0x80) ∧ FileName.check p.1 = .ok () ∧
      p.2.length = 32 := by
    intro p hp
    rw [List.mem_singleton.mp hp]
    have hchars : "a.roa".toList = ['a', '.', 'r', 'o', 'a'] := by decide +kernel
    exact ⟨by rw [hchars]; simp, by decide +kernel, by decide +kernel⟩
  have hlt : d.octets.length < 2 ^ 32 := by decide +kernel +zetaReduce
  exact ⟨⟨ha, hb, hle, hpairs, hlt⟩, decode_octets ha hb hle hpairs hlt⟩

/-- **A leap second in a draft is lost.**  A draft without files that starts in the leap second at the
end of 2016 is read with the ordinary second before it, so not with the truncated times. -/
theorem Draft.leap_second_not_decoded :
    let a : Time := ⟨1483228799, 1000000000, by decide, by decide, by decide⟩
    let b : Time := ⟨1483315200, 0, by decide, by decide, by decide⟩
    let d : Draft := (start (.ofNat 200) a b).pushPairs []
    ((0 ≤ a.civil.year ∧ a.civil.year ≤ 9999) ∧ (0 ≤ b.civil.year ∧ b.civil.year ≤ 9999) ∧
      a.truncated ≤ b.truncated ∧ d.octets.length < 2 ^ 32) ∧
    ManifestContent.decode d.octets = .ok ⟨.ofNat 200, ⟨a.wholeSecond, b.wholeSecond⟩, []⟩ ∧
    ¬ ∃ c, ManifestContent.decode d.octets = .ok c ∧ c.number = .ofNat 200 ∧
      c.window = ⟨a.truncated, b.truncated⟩ ∧
      c.files.map (fun e ↦ (e.file, e.hash.val)) = [] := by
  intro a b d
  have ha : 0 ≤ a.civil.year ∧ a.civil.year ≤ 9999 := by decide +kernel +zetaReduce
  have hb : 0 ≤ b.civil.year ∧ b.civil.year ≤ 9999 := by decide +kernel +zetaReduce
  have hle : a.truncated ≤ b.truncated := by decide +kernel +zetaReduce
  have hlt : d.octets.length < 2 ^ 32 := by decide +kernel +zetaReduce
  have hleap : ¬ a.nanos < 1000000000 := Nat.lt_irrefl _
  have hdecode : ManifestContent.decode d.octets =
      .ok ⟨.ofNat 200, ⟨a.wholeSecond, b.wholeSecond⟩, []⟩ := by
    decide +kernel +zetaReduce
  refine ⟨⟨ha, hb, hle, hlt⟩, hdecode, fun htruncated ↦ ?_⟩
  obtain ⟨c, hc, -, hwindow, -⟩ := htruncated
  rw [hdecode, Except.ok.injEq] at hc
  subst hc
  have hstart : a.wholeSecond = a.truncated := congrArg ValidityWindow.thisUpdate hwindow
  exact hleap (Time.truncated_eq_wholeSecond_iff.mp hstart.symm)

end Rpki
