import Rpki.Proofs.Manifest.Draft
import Rpki.Proofs.Manifest.Fields

/-!
# Which names get in

The name of a file gets into a manifest in three ways: it is given to `FileEntry.ofParts`, it stands
in a file list, or it comes with the transfer form.  All three are held to `FileName.check`, and a
file list to one thing more, because a name is an IA5String there: it has to be ASCII.

So the ways do not admit the same names.  `FileEntry.ofParts_iff_routes` says how they compare.  The
first and the third admit any plain name of at least five octets, and the second only the ASCII ones
of these.  An entry that has been made of its parts and put in a draft is written like any other,
and the content is read again exactly if the name is ASCII.
-/

set_option autoImplicit false

namespace Rpki

open Der

/-! ## From parts -/

namespace FileEntry

theorem ofParts_eq_ok_iff {file : String} {hash : Digest} {e : FileEntry} :
    ofParts file hash = .ok e ↔ FileName.isValid file = true ∧ ⟨file, hash⟩ = e := by
  rw [ofParts, check_return_eq_ok_iff, FileName.check_eq_ok_iff]

/-- Parts make an entry exactly if the name keeps the rules. -/
theorem exists_ofParts_iff {file : String} {hash : Digest} :
    (∃ e, ofParts file hash = .ok e) ↔ FileName.isValid file = true := by
  simp only [ofParts_eq_ok_iff, exists_and_left, exists_eq', and_true]

/-! ## In a file list -/

/-- The elements of an entry can be read, unless its name is too long. -/
theorem isRegular_of_mem_elements {e : FileEntry} (h : e.file.utf8ByteSize < 2 ^ 32) :
    ∀ x ∈ e.elements, x.IsRegular := by
  intro x hx
  have hshort := e.regularIfShort_elements x hx
  simp only [elements, List.mem_cons, List.not_mem_nil, or_false] at hx
  rcases hx with rfl | rfl
  · exact hshort h
  · refine hshort ?_
    rw [List.length_cons, e.hash.property]
    decide

/-- Entries with the same elements are the same. -/
theorem elements_inj {e e' : FileEntry} (h : e.elements = e'.elements) : e = e' := by
  simp only [elements, List.cons.injEq, Element.mk.injEq, true_and, and_true] at h
  obtain ⟨hfile, hhash⟩ := h
  have hread := Octets.toString?_eq_some_iff.mpr hfile
  rw [Octets.toString?_eq_some_iff.mpr rfl, Option.some.injEq] at hread
  obtain ⟨file, hash⟩ := e
  obtain ⟨file', hash'⟩ := e'
  rw [FileEntry.mk.injEq]
  exact ⟨hread, Subtype.ext hhash⟩

/-- Entries that are the same SEQUENCE are the same. -/
theorem element_inj {e e' : FileEntry} (he : ∀ x ∈ e.elements, x.IsRegular)
    (he' : ∀ x ∈ e'.elements, x.IsRegular) (h : e.element = e'.element) : e = e' :=
  elements_inj (Element.ofSequence_inj he he' h)

/-- **The entries that a file list can hold** are those with a plain ASCII name. -/
theorem exists_readList_iff {files : List FileEntry}
    (h : ∀ e ∈ files, ∀ x ∈ e.elements, x.IsRegular) :
    (∃ es, readList (files.map element) = .ok es) ↔ ∀ e ∈ files, FileName.IsListable e.file := by
  simp only [readList_eq_ok_iff]
  refine ⟨fun hes e he ↦ ?_, fun hnames ↦ ⟨files, fun e he ↦ ⟨hnames e he, h e he⟩, rfl⟩⟩
  obtain ⟨es, hes, hmap⟩ := hes
  have hmem : e.element ∈ es.map element := hmap ▸ List.mem_map_of_mem he
  obtain ⟨e', he', heq⟩ := List.mem_map.mp hmem
  rw [← element_inj (hes e' he').2 (h e he) heq]
  exact (hes e' he').1

end FileEntry

/-! ## In content -/

namespace ManifestContent

/-- **Content can be read back** exactly if all names in it are plain and ASCII. -/
theorem exists_decode_octets_iff {c : ManifestContent} (hwindow : c.window.IsGeneralized)
    (hlt : c.element.content.length < 2 ^ 32) :
    (∃ c', decode c.element.octets = .ok c') ↔ ∀ e ∈ c.files, FileName.IsListable e.file := by
  refine ⟨fun h ↦ ?_, fun hnames ↦ ⟨c, decode_eq_ok_iff.mpr ⟨⟨hwindow, hnames, hlt⟩, rfl⟩⟩⟩
  obtain ⟨c', hdecode⟩ := h
  simp only [decode, bind_eq_ok_iff, Head.decode_eq_ok_iff, Head.files_eq_ok_iff] at hdecode
  obtain ⟨head, ⟨helements, -⟩, files, ⟨-, hlist, hfiles⟩, -⟩ := hdecode
  -- The elements that are read are those of the content, so its entries are the ones that are read.
  have hregular := Element.isRegular_of_mem c.regularIfShort_elements hlt
  have hdecode : Sequence.decode c.element.octets = .ok c.elements :=
    Sequence.decode_eq_ok_iff.mpr ⟨hregular, hlt, rfl⟩
  rw [← Except.ok.inj (hdecode.symm.trans helements)] at hlist
  have hfour : Element.ofSequence (c.files.map FileEntry.element) =
      .ofSequence (files.map FileEntry.element) := Option.some.inj hlist
  have hshort : (Element.ofSequence (c.files.map FileEntry.element)).content.length < 2 ^ 32 :=
    Nat.lt_of_le_of_lt (Element.length_content_le_of_mem (by simp [elements])) hlt
  have hentries (e : FileEntry) (he : e ∈ c.files) := FileEntry.isRegular_of_mem_list hshort he
  have hmap : c.files.map FileEntry.element = files.map FileEntry.element := by
    refine Element.ofSequence_inj (fun x hx ↦ ?_) (fun x hx ↦ ?_) hfour
    · obtain ⟨e, he, rfl⟩ := List.mem_map.mp hx
      exact (hentries e he).2
    · obtain ⟨e, he, rfl⟩ := List.mem_map.mp hx
      exact (hfiles e he).2.2
  refine (FileEntry.exists_readList_iff fun e he ↦ (hentries e he).1).mp ⟨files, ?_⟩
  exact FileEntry.readList_eq_ok_iff.mpr
    ⟨fun e he ↦ ⟨(hfiles e he).1, (hfiles e he).2.1⟩, hmap⟩

end ManifestContent

/-- One entry among others is put in a draft at its place. -/
theorem Draft.pushEntries_append_cons (d : Draft) (front back : List FileEntry) (e : FileEntry) :
    d.pushEntries (front ++ e :: back) = ((d.pushEntries front).push e).pushEntries back := by
  rw [pushEntries, List.foldl_append, List.foldl_cons]
  rfl

/-- **What is written for a draft can be read back** exactly if all names in it are plain and
ASCII. -/
theorem Draft.exists_decode_octets_iff {number : ManifestNumber} {a b : Time}
    {files : List FileEntry} (ha : 0 ≤ a.civil.year ∧ a.civil.year ≤ 9999)
    (hb : 0 ≤ b.civil.year ∧ b.civil.year ≤ 9999) (hle : a.seconds ≤ b.seconds)
    (hlt : ((Draft.start number a b).pushEntries files).octets.length < 2 ^ 32) :
    (∃ c, ManifestContent.decode ((Draft.start number a b).pushEntries files).octets = .ok c) ↔
      ∀ e ∈ files, FileName.IsListable e.file := by
  let c : ManifestContent := ⟨number, ⟨a.wholeSecond, b.wholeSecond⟩, files⟩
  -- The fraction of a time is not written.
  have hoctets : ((start number a b).pushEntries files).octets = c.element.octets := by
    have hwrites := ManifestContent.writes_draft (c := ⟨number, ⟨a, b⟩, files⟩) ha hb
    rw [ManifestContent.draft_eq] at hwrites
    exact hwrites.octets_eq
  rw [hoctets] at hlt ⊢
  exact ManifestContent.exists_decode_octets_iff
    ⟨ha, hb, rfl, rfl, Time.wholeSecond_le_wholeSecond hle⟩
    (Nat.lt_of_le_of_lt c.element.length_content_le hlt)

/-! ## In the transfer form -/

namespace Manifest

open Transfer

/-- The octets of an entry determine it and what is behind them. -/
theorem writeEntry_append_inj {e e' : FileEntry} {s s' : Octets}
    (he : e.file.utf8ByteSize < 2 ^ 64) (he' : e'.file.utf8ByteSize < 2 ^ 64)
    (h : writeEntry e ++ s = writeEntry e' ++ s') : e = e' ∧ s = s' := by
  obtain ⟨file, hash⟩ := e
  obtain ⟨file', hash'⟩ := e'
  simp only [writeEntry, List.append_assoc] at h
  obtain ⟨rfl, hrest⟩ := Reader.eq_of_eq_ok (Reader.string_eq_ok_iff.mpr ⟨he, rfl⟩)
    (Reader.string_eq_ok_iff.mpr ⟨he', h⟩)
  obtain ⟨rfl, rfl⟩ := Reader.eq_of_eq_ok (Reader.fixed_eq_ok_iff.mpr rfl)
    (Reader.fixed_eq_ok_iff.mpr hrest)
  exact ⟨rfl, rfl⟩

/-- The octets of entries determine them, if their number is known. -/
theorem flatMap_writeEntry_inj {files files' : List FileEntry} {s s' : Octets}
    (hfiles : ∀ e ∈ files, e.file.utf8ByteSize < 2 ^ 64)
    (hfiles' : ∀ e ∈ files', e.file.utf8ByteSize < 2 ^ 64) (hlength : files.length = files'.length)
    (h : files.flatMap writeEntry ++ s = files'.flatMap writeEntry ++ s') : files = files' := by
  induction files generalizing files' with
  | nil => exact (List.length_eq_zero_iff.mp hlength.symm).symm
  | cons e files ih =>
    obtain ⟨e', files', rfl⟩ := List.exists_cons_of_length_eq_add_one hlength.symm
    simp only [List.flatMap_cons, List.append_assoc] at h
    rw [List.forall_mem_cons] at hfiles hfiles'
    obtain ⟨rfl, hrest⟩ := writeEntry_append_inj hfiles.1 hfiles'.1 h
    rw [ih hfiles.2 hfiles'.2 (Nat.succ.inj hlength) hrest]

/-- **The transfer form determines the entries**, whether they keep the rules or not. -/
theorem files_eq_of_toTransfer_eq {m m' : Manifest} (hm : m.HasLengths) (hm' : m'.HasLengths)
    (h : m.toTransfer = m'.toTransfer) : m.files = m'.files := by
  rw [toTransfer_eq, toTransfer_eq] at h
  obtain ⟨-, hpath⟩ := Reader.eq_of_eq_ok (Reader.flag_eq_ok_iff.mpr rfl)
    (Reader.flag_eq_ok_iff.mpr h)
  obtain ⟨-, hcount⟩ := Reader.eq_of_eq_ok (Reader.string_eq_ok_iff.mpr ⟨hm.path_lt, rfl⟩)
    (Reader.string_eq_ok_iff.mpr ⟨hm'.path_lt, hpath⟩)
  simp only [List.append_assoc] at hcount
  obtain ⟨hlength, hentries⟩ := Reader.eq_of_eq_ok (Reader.uint64_eq_ok_iff.mpr rfl)
    (Reader.uint64_eq_ok_iff.mpr hcount)
  have hlength := congrArg UInt64.toNat hlength
  rw [UInt64.toNat_ofNat_of_lt' hm.files_lt, UInt64.toNat_ofNat_of_lt' hm'.files_lt] at hlength
  exact flatMap_writeEntry_inj hm.file_lt hm'.file_lt hlength hentries

/-- **A manifest can take one more entry** exactly if the name keeps the rules. -/
theorem exists_ofTransfer_insert_iff {m : Manifest} {front back : List FileEntry}
    {e : FileEntry} (hm : m.IsTransferable) (hstale : m.stale = false)
    (hfiles : m.files = front ++ back) (hcount : m.files.length + 1 < 2 ^ 64)
    (hlt : e.file.utf8ByteSize < 2 ^ 64) :
    (∃ m', ofTransfer { m with files := front ++ e :: back }.toTransfer = .ok m') ↔
      FileName.isValid e.file = true := by
  have hmem (x : FileEntry) : x ∈ front ++ e :: back ↔ x = e ∨ x ∈ m.files := by
    rw [hfiles, List.mem_append, List.mem_append, List.mem_cons]
    tauto
  have hlengths : HasLengths { m with files := front ++ e :: back } := by
    refine ⟨hm.path_lt, ?_, fun x hx ↦ ?_, hm.ski_lt, hm.aki_lt, hm.aia_lt⟩
    · rw [hfiles] at hcount
      simpa [Nat.add_assoc] using hcount
    · rcases (hmem x).mp hx with rfl | hx
      · exact hlt
      · exact hm.file_lt x hx
  refine ⟨fun h ↦ ?_, fun hvalid ↦ ⟨{ m with files := front ++ e :: back }, ?_⟩⟩
  · obtain ⟨m', hread⟩ := h
    obtain ⟨hm', hwrite⟩ := ofTransfer_eq_ok_iff.mp hread
    have hback : m'.files = front ++ e :: back :=
      files_eq_of_toTransfer_eq hm'.hasLengths hlengths hwrite
    refine hm'.wellFormed.isValid_of_mem e ?_
    rw [hback]
    exact (hmem e).mpr (.inl rfl)
  · refine (ofTransfer_eq_self_iff hlengths).mpr ⟨?_, hm.thisNanos, hm.nextNanos⟩
    have hrules := hm.wellFormed
    refine ⟨fun hst ↦ ?_, fun x hx ↦ ?_, hrules.ski_ne, hrules.aki_ne, hrules.aia_ne,
      hrules.update_le⟩
    · rw [hstale] at hst
      exact nomatch hst
    · rcases (hmem x).mp hx with rfl | hx
      · exact hvalid
      · exact hrules.isValid_of_mem x hx

end Manifest

/-! ## All ways -/

namespace FileEntry

/-- **The ways into a manifest differ for names that are not ASCII.**  Take any name and any hash.
A transfer form that has them as one file more can be read exactly if they make an entry.  The file
list of them alone can be read exactly if they make one and the name is ASCII.  If they make one and
it is put in a draft, what is written can be read exactly if the name is ASCII. -/
theorem ofParts_iff_routes (e : FileEntry) :
    (∀ (m : Manifest) (front back : List FileEntry), m.IsTransferable → m.stale = false →
      m.files = front ++ back → m.files.length + 1 < 2 ^ 64 → e.file.utf8ByteSize < 2 ^ 64 →
      ((∃ m', Manifest.ofTransfer { m with files := front ++ e :: back }.toTransfer = .ok m') ↔
        ∃ e', ofParts e.file e.hash = .ok e')) ∧
    (e.file.utf8ByteSize < 2 ^ 32 →
      ((∃ es, readList [e.element] = .ok es) ↔
        (∃ e', ofParts e.file e.hash = .ok e') ∧ ∀ c ∈ e.file.toList, c.toNat < 0x80)) ∧
    ∀ (number : ManifestNumber) (a b : Time) (front back : List FileEntry) (e' : FileEntry),
      let d := (((Draft.start number a b).pushEntries front).push e').pushEntries back
      0 ≤ a.civil.year ∧ a.civil.year ≤ 9999 → 0 ≤ b.civil.year ∧ b.civil.year ≤ 9999 →
      a.seconds ≤ b.seconds → (∀ x ∈ front ++ back, FileName.IsListable x.file) →
      ofParts e.file e.hash = .ok e' → d.octets.length < 2 ^ 32 →
      ((∃ c, ManifestContent.decode d.octets = .ok c) ↔ ∀ c ∈ e.file.toList, c.toNat < 0x80) := by
  have hlistable : FileName.IsListable e.file ↔
      FileName.isValid e.file = true ∧ ∀ c ∈ e.file.toList, c.toNat < 0x80 :=
    ⟨fun h ↦ ⟨h.isValid, h.ascii⟩, fun h ↦ ⟨h.2, h.1⟩⟩
  refine ⟨fun m front back hm hstale hfiles hcount hlt ↦ ?_, fun hlt ↦ ?_, ?_⟩
  · rw [exists_ofParts_iff]
    exact Manifest.exists_ofTransfer_insert_iff hm hstale hfiles hcount hlt
  · have hregular : ∀ x ∈ [e], ∀ y ∈ x.elements, y.IsRegular := by
      rw [List.forall_mem_singleton]
      exact isRegular_of_mem_elements hlt
    rw [exists_ofParts_iff, ← hlistable, ← List.map_singleton, exists_readList_iff hregular,
      List.forall_mem_singleton]
  · intro number a b front back e' d ha hb hle hothers hparts hlt
    obtain ⟨hvalid, rfl⟩ := ofParts_eq_ok_iff.mp hparts
    have hd : d = (Draft.start number a b).pushEntries (front ++ e :: back) :=
      (Draft.pushEntries_append_cons _ _ _ _).symm
    rw [hd] at hlt ⊢
    rw [Draft.exists_decode_octets_iff ha hb hle hlt]
    refine ⟨fun h ↦ (h e (by simp)).ascii, fun hascii x hx ↦ ?_⟩
    rcases List.mem_append.mp hx with hx | hx
    · exact hothers x (List.mem_append_left _ hx)
    · rcases List.mem_cons.mp hx with rfl | hx
      · exact ⟨hascii, hvalid⟩
      · exact hothers x (List.mem_append_right _ hx)

/-- The name `fü.roa` makes an entry, and it is admitted to the transfer form, but neither the file
list nor what is written for a draft can be read. -/
theorem ofParts_iff_routes_umlaut :
    let hash : Digest := ⟨List.replicate 32 1, rfl⟩
    let e : FileEntry := ⟨"fü.roa", hash⟩
    let a : Time := ⟨1631880000, 0, by decide, by decide, by decide⟩
    let b : Time := ⟨1631966400, 0, by decide, by decide, by decide⟩
    let m : Manifest := ⟨"a.mft", .ofNat 200, ⟨a, b⟩, false, [⟨"a.roa", hash⟩], "AB", "CD", none⟩
    let d := (((Draft.start (.ofNat 200) a b).pushEntries [⟨"a.roa", hash⟩]).push e).pushEntries []
    ofParts e.file e.hash = .ok e ∧
      (∃ m', Manifest.ofTransfer { m with files := [⟨"a.roa", hash⟩, e] }.toTransfer = .ok m') ∧
      (¬ ∃ es, readList [e.element] = .ok es) ∧
      ¬ ∃ c, ManifestContent.decode d.octets = .ok c := by
  intro hash e a b m d
  obtain ⟨htransfer, hlist, hdraft⟩ := ofParts_iff_routes e
  have hparts : ofParts e.file e.hash = .ok e := by decide +kernel +zetaReduce
  have hchars : e.file.toList = ['f', 'ü', '.', 'r', 'o', 'a'] := by decide +kernel +zetaReduce
  have hascii : ¬ ∀ c ∈ e.file.toList, c.toNat < 0x80 := by
    rw [hchars]
    exact fun h ↦ absurd (h 'ü' (by simp)) (by decide)
  have hm : m.IsTransferable := by
    have hread : Manifest.ofTransfer m.toTransfer = .ok m := by decide +kernel +zetaReduce
    exact (Manifest.ofTransfer_eq_ok_iff.mp hread).1
  have hother : ∀ x ∈ [(⟨"a.roa", hash⟩ : FileEntry)] ++ [], FileName.IsListable x.file := by
    have hchars : "a.roa".toList = ['a', '.', 'r', 'o', 'a'] := by decide +kernel
    rw [List.append_nil, List.forall_mem_singleton]
    exact ⟨by rw [hchars]; simp, by decide +kernel⟩
  have hlt : d.octets.length < 2 ^ 32 := by decide +kernel +zetaReduce
  have ha : 0 ≤ a.civil.year ∧ a.civil.year ≤ 9999 := by decide +kernel +zetaReduce
  have hb : 0 ≤ b.civil.year ∧ b.civil.year ≤ 9999 := by decide +kernel +zetaReduce
  have hle : a.seconds ≤ b.seconds := by decide +kernel +zetaReduce
  refine ⟨hparts, ?_, fun h ↦ hascii ((hlist (by decide +kernel +zetaReduce)).mp h).2, fun h ↦ ?_⟩
  · exact (htransfer m [⟨"a.roa", hash⟩] [] hm rfl rfl (by decide +kernel +zetaReduce)
      (by decide +kernel +zetaReduce)).mpr ⟨e, hparts⟩
  · exact hascii ((hdraft (.ofNat 200) a b _ [] e ha hb hle hother hparts hlt).mp h)

/-- **Making an entry is not enough for a file list**, since the name need not be ASCII. -/
theorem ofParts_not_listable_umlaut :
    let e : FileEntry := ⟨"fü.roa", List.replicate 32 1, rfl⟩
    ¬ ((∃ e', ofParts e.file e.hash = .ok e') ↔ ∃ es, readList [e.element] = .ok es) := by
  intro e hiff
  have hparts : ofParts e.file e.hash = .ok e := by decide +kernel +zetaReduce
  have hlist : readList [e.element] = .error (.semantic .nameNotAscii) := by
    decide +kernel +zetaReduce
  obtain ⟨es, hes⟩ := hiff.mp ⟨e, hparts⟩
  rw [hlist] at hes
  exact nomatch hes

end FileEntry

end Rpki
