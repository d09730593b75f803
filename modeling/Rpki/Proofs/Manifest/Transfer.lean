import Rpki.Manifest.Transfer
import Rpki.Proofs.Manifest.Entry
import Rpki.Proofs.Transfer.Reader
import Rpki.Proofs.Validity

/-!
# The transfer form of manifests has one spelling

A manifest `IsTransferable` if it keeps the rules, has whole seconds for its times, and has no text
or list whose length does not fit into 64 bits.  `Manifest.ofTransfer_eq_ok_iff` says that these
are the manifests that can be read, and that each is read from one string of octets only, the one
that is written for it.  So the checks, which are spread over the whole of reading, come to the
rules and to no more.
-/

set_option autoImplicit false

namespace Rpki

open Transfer

namespace Manifest

/-- A manifest that has a transfer form from which it can be read. -/
structure IsTransferable (m : Manifest) : Prop where
  wellFormed : m.WellFormed
  thisNanos : m.window.thisUpdate.nanos = 0
  nextNanos : m.window.nextUpdate.nanos = 0
  path_lt : m.path.utf8ByteSize < 2 ^ 64
  files_lt : m.files.length < 2 ^ 64
  file_lt : ∀ e ∈ m.files, e.file.utf8ByteSize < 2 ^ 64
  ski_lt : m.ski.utf8ByteSize < 2 ^ 64
  aki_lt : m.aki.utf8ByteSize < 2 ^ 64
  aia_lt : (m.aia.getD "").utf8ByteSize < 2 ^ 64

variable {s rest : Octets}

/-! ## Parts -/

theorem readEntry_eq_ok_iff {e : FileEntry} :
    readEntry s = (.ok e, rest) ↔
      (FileName.isValid e.file = true ∧ e.file.utf8ByteSize < 2 ^ 64) ∧
        s = writeEntry e ++ rest := by
  simp only [readEntry, Reader.bind_eq_ok_iff, Reader.string_eq_ok_iff]
  refine ⟨fun h ↦ ?_, fun h ↦ ?_⟩
  · obtain ⟨file, _, ⟨hlt, rfl⟩, h⟩ := h
    split at h
    · next hvalid =>
      simp only [Reader.bind_eq_ok_iff, Reader.fixed_eq_ok_iff, Reader.pure_eq_ok_iff] at h
      obtain ⟨hash, _, rfl, rfl, rfl⟩ := h
      exact ⟨⟨hvalid, hlt⟩, (List.append_assoc _ _ _).symm⟩
    · exact absurd h Reader.fail_ne_ok
  · obtain ⟨⟨hvalid, hlt⟩, rfl⟩ := h
    refine ⟨e.file, e.hash.val ++ rest, ⟨hlt, List.append_assoc _ _ _⟩, ?_⟩
    rw [if_pos hvalid]
    simp only [Reader.bind_eq_ok_iff, Reader.fixed_eq_ok_iff, Reader.pure_eq_ok_iff]
    exact ⟨e.hash, rest, rfl, rfl, rfl⟩

theorem entryLength_le (e : FileEntry) : entryLength ≤ (writeEntry e).length := by
  have hlength (n : Nat) : (Writer.length n).length = 8 := Octets.length_ofLittleEndian 8 _
  rw [writeEntry, Writer.string, List.length_append, List.length_append, hlength, e.hash.property]
  simp only [entryLength]
  omega

/-- There are enough octets for the number of entries, since no entry is shorter than the least. -/
theorem length_mul_entryLength_le (files : List FileEntry) :
    files.length * entryLength ≤ (files.flatMap writeEntry).length := by
  induction files with
  | nil => simp
  | cons e files ih =>
    have he := entryLength_le e
    rw [List.flatMap_cons, List.length_append, List.length_cons, Nat.succ_mul]
    omega

/-- **Entries are read exactly from their number and the octets of each.** -/
theorem readEntries_eq_ok_iff {stale : Bool} {files : List FileEntry} :
    readEntries stale s = (.ok files, rest) ↔
      (stale = true → files = []) ∧ files.length < 2 ^ 64 ∧
        (∀ e ∈ files, FileName.isValid e.file = true ∧ e.file.utf8ByteSize < 2 ^ 64) ∧
        s = Writer.length files.length ++ files.flatMap writeEntry ++ rest := by
  simp only [readEntries, Reader.bind_eq_ok_iff, Reader.count_eq_ok_iff]
  refine ⟨fun h ↦ ?_, fun h ↦ ?_⟩
  · obtain ⟨n, _, ⟨hlt, -, rfl⟩, h⟩ := h
    split at h
    · exact absurd h Reader.fail_ne_ok
    · next hstale =>
      obtain ⟨rfl, hfiles, rfl⟩ := (Reader.items_eq_ok_iff readEntry_eq_ok_iff).mp h
      rw [not_and, Nat.not_lt, Nat.le_zero, List.length_eq_zero_iff] at hstale
      exact ⟨hstale, hlt, hfiles, (List.append_assoc _ _ _).symm⟩
  · obtain ⟨hstale, hlt, hfiles, rfl⟩ := h
    have hle : files.length * entryLength ≤ (files.flatMap writeEntry ++ rest).length := by
      rw [List.length_append]
      exact Nat.le_trans (length_mul_entryLength_le files) (Nat.le_add_right _ _)
    refine ⟨files.length, _, ⟨hlt, hle, List.append_assoc _ _ _⟩, ?_⟩
    rw [if_neg]
    · exact (Reader.items_eq_ok_iff readEntry_eq_ok_iff).mpr ⟨rfl, hfiles, rfl⟩
    · rintro ⟨hst, hpos⟩
      rw [hstale hst] at hpos
      exact Nat.lt_irrefl 0 hpos

theorem readWindow_eq_ok_iff {w : ValidityWindow} :
    readWindow s = (.ok w, rest) ↔
      w.thisUpdate ≤ w.nextUpdate ∧ w.thisUpdate.nanos = 0 ∧ w.nextUpdate.nanos = 0 ∧
        s = Writer.time w.thisUpdate ++ Writer.time w.nextUpdate ++ rest := by
  simp only [readWindow, Reader.bind_eq_ok_iff, Reader.time_eq_ok_iff]
  refine ⟨fun h ↦ ?_, fun h ↦ ?_⟩
  · obtain ⟨a, _, ⟨ha, rfl⟩, b, _, ⟨hb, rfl⟩, h⟩ := h
    cases hw : ValidityWindow.ofTimes a b with
    | error e =>
      rw [hw] at h
      exact absurd h Reader.fail_ne_ok
    | ok w' =>
      rw [hw] at h
      obtain ⟨rfl, rfl⟩ := Reader.pure_eq_ok_iff.mp h
      obtain ⟨hle, rfl, rfl⟩ := ValidityWindow.ofTimes_eq_ok_iff.mp hw
      exact ⟨hle, ha, hb, (List.append_assoc _ _ _).symm⟩
  · obtain ⟨hle, ha, hb, rfl⟩ := h
    refine ⟨_, _, ⟨ha, List.append_assoc _ _ _⟩, _, rest, ⟨hb, rfl⟩, ?_⟩
    rw [ValidityWindow.ofTimes_eq_ok_iff.mpr ⟨hle, rfl, rfl⟩]
    exact Reader.pure_eq_ok_iff.mpr ⟨rfl, rfl⟩

/-! ## The whole form -/

/-- The fields in the order in which they are taken. -/
theorem toTransfer_eq (m : Manifest) :
    m.toTransfer =
      Writer.flag m.stale ++ (Writer.string m.path ++
        ((Writer.length m.files.length ++ m.files.flatMap writeEntry) ++
          (Writer.optionalString m.aia ++ (Writer.string m.aki ++ (Writer.string m.ski ++
            (m.number.octets.val ++ ((Writer.time m.window.thisUpdate ++
              Writer.time m.window.nextUpdate) ++ []))))))) := by
  simp only [toTransfer, List.append_assoc, List.append_nil]

theorem read_eq_ok_iff {m : Manifest} :
    read s = (.ok m, rest) ↔ m.IsTransferable ∧ s = m.toTransfer ∧ rest = [] := by
  simp only [read, Reader.bind_eq_ok_iff, Reader.flag_eq_ok_iff, Reader.string_eq_ok_iff,
    readEntries_eq_ok_iff, Reader.optionalString_eq_ok_iff, Reader.fixed_eq_ok_iff,
    readWindow_eq_ok_iff, Reader.finish_eq_ok_iff]
  refine ⟨fun h ↦ ?_, fun h ↦ ?_⟩
  · obtain ⟨stale, _, rfl, path, _, ⟨hpath, rfl⟩, files, _, ⟨hstale, hcount, hfiles, rfl⟩, aia, _,
        ⟨haia, haialt, rfl⟩, aki, _, ⟨haki, rfl⟩, ski, _, ⟨hski, rfl⟩, number, _, rfl, window, _,
        ⟨hle, hthis, hnext, rfl⟩, _, _, ⟨rfl, rfl⟩, h⟩ := h
    cases hcheck : check ⟨path, ⟨number⟩, window, stale, files, ski, aki, aia⟩ with
    | error rule =>
      rw [hcheck] at h
      exact absurd h Reader.fail_ne_ok
    | ok u =>
      rw [hcheck] at h
      obtain ⟨rfl, rfl⟩ := Reader.pure_eq_ok_iff.mp h
      refine ⟨?_, (toTransfer_eq ⟨path, ⟨number⟩, window, stale, files, ski, aki, aia⟩).symm, rfl⟩
      exact ⟨(check_eq_ok_iff _).mp hcheck, hthis, hnext, hpath, hcount, fun e he ↦ (hfiles e he).2,
        hski, haki, haialt⟩
  · obtain ⟨hm, rfl, rfl⟩ := h
    have hrules := hm.wellFormed
    have hfiles (e : FileEntry) (he : e ∈ m.files) :
        FileName.isValid e.file = true ∧ e.file.utf8ByteSize < 2 ^ 64 :=
      ⟨hrules.isValid_of_mem e he, hm.file_lt e he⟩
    rw [toTransfer_eq]
    refine ⟨_, _, rfl, m.path, _, ⟨hm.path_lt, rfl⟩,
      m.files, _, ⟨hrules.files_eq_nil, hm.files_lt, hfiles, rfl⟩,
      m.aia, _, ⟨hrules.aia_ne, hm.aia_lt, rfl⟩,
      m.aki, _, ⟨hm.aki_lt, rfl⟩, m.ski, _, ⟨hm.ski_lt, rfl⟩, m.number.octets, _, rfl,
      m.window, [], ⟨hrules.update_le, hm.thisNanos, hm.nextNanos, rfl⟩, (), [], ⟨rfl, rfl⟩, ?_⟩
    rw [(check_eq_ok_iff m).mpr hrules]
    exact Reader.pure_eq_ok_iff.mpr ⟨rfl, rfl⟩

/-- **A manifest is read exactly from its transfer form.** -/
theorem ofTransfer_eq_ok_iff {data : Octets} {m : Manifest} :
    ofTransfer data = .ok m ↔ m.IsTransferable ∧ m.toTransfer = data := by
  rw [ofTransfer, Reader.run_eq_ok_iff]
  simp only [read_eq_ok_iff]
  refine ⟨fun h ↦ ?_, fun h ↦ ?_⟩
  · obtain ⟨_, hm, hdata, -⟩ := h
    exact ⟨hm, hdata.symm⟩
  · obtain ⟨hm, hdata⟩ := h
    exact ⟨[], hm, hdata.symm, rfl⟩

/-- **The transfer form is canonical.**  What is read from some octets are the manifests that keep
all rules, and the octets are the ones that are written for them.  The rules for files, names, key
identifiers, location and times are spelt out here; the rest says that all lengths can be
written. -/
theorem ofTransfer_iff_canonical {data : Octets} {m : Manifest} :
    ofTransfer data = .ok m ↔
      m.toTransfer = data ∧
        (m.stale = true → m.files = []) ∧
        (∀ e ∈ m.files, 5 ≤ e.file.utf8ByteSize ∧
          ∀ c ∈ e.file.toList, c ≠ '/' ∧ c ≠ '\\' ∧ c ≠ '\x00') ∧
        m.aki ≠ "" ∧ m.ski ≠ "" ∧ m.aia ≠ some "" ∧
        m.window.thisUpdate ≤ m.window.nextUpdate ∧
        m.window.thisUpdate.nanos = 0 ∧ m.window.nextUpdate.nanos = 0 ∧
        m.files.length < 2 ^ 64 ∧ (∀ e ∈ m.files, e.file.utf8ByteSize < 2 ^ 64) ∧
        m.path.utf8ByteSize < 2 ^ 64 ∧ m.aki.utf8ByteSize < 2 ^ 64 ∧
        m.ski.utf8ByteSize < 2 ^ 64 ∧ (m.aia.getD "").utf8ByteSize < 2 ^ 64 := by
  rw [ofTransfer_eq_ok_iff]
  refine ⟨fun h ↦ ?_, fun h ↦ ?_⟩
  · obtain ⟨hm, rfl⟩ := h
    have hrules := hm.wellFormed
    exact ⟨rfl, hrules.files_eq_nil,
      fun e he ↦ FileName.isValid_iff.mp (hrules.isValid_of_mem e he), hrules.aki_ne,
      hrules.ski_ne, hrules.aia_ne, hrules.update_le, hm.thisNanos, hm.nextNanos, hm.files_lt,
      hm.file_lt, hm.path_lt, hm.aki_lt, hm.ski_lt, hm.aia_lt⟩
  · obtain ⟨rfl, hstale, hnames, haki, hski, haia, hle, hthis, hnext, hfiles, hfile, hpath, hakilt,
        hskilt, haialt⟩ := h
    have hrules : m.WellFormed :=
      ⟨hstale, fun e he ↦ FileName.isValid_iff.mpr (hnames e he), hski, haki, haia, hle⟩
    exact ⟨⟨hrules, hthis, hnext, hpath, hfiles, hfile, hskilt, hakilt, haialt⟩, rfl⟩

end Manifest

end Rpki
