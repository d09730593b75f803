import Rpki.Manifest.HashCheck
import Rpki.Proofs.Manifest.Obtained
import Rpki.Proofs.Path

/-!
# Which files are asked for

Comparing files with a manifest hands paths to a digester, and the names in them come from whoever
signed the manifest.  So which paths these are is a matter of safety: none may lead out of the
directory that the check is for.

`Digester.traced` writes the paths down beside what the digester does, whatever that is, and
`Manifest.run_checkEntries_traced` says which they are: one for each entry, in order, and nothing
else about the check is changed.  A name that an entry may have is one component of a path
(`FileName.isNormal_of_isValid`), and every manifest that has been read has only such names
(`Manifest.IsObtained.wellFormed`), so every path is the directory and the name of the entry in it.
-/

set_option autoImplicit false

namespace Rpki

/-! ## Names -/

/-- A name that an entry may have is one component of a path.  The names that are others, such as
`..`, are too short. -/
theorem FileName.isNormal_of_isValid {name : String} (h : isValid name = true) :
    Path.IsNormal name := by
  obtain ⟨hlong, hplain⟩ := isValid_iff.mp h
  refine ⟨fun hmem ↦ (hplain _ hmem).1 rfl, ?_, ?_, ?_⟩
  · rintro rfl
    exact absurd hlong (by decide)
  · rintro rfl
    exact absurd hlong (by decide)
  · rintro rfl
    exact absurd hlong (by decide)

/-- There is no NUL in a name that an entry may have. -/
theorem FileName.nul_notMem_of_isValid {name : String} (h : isValid name = true) :
    '\x00' ∉ name.toList :=
  fun hmem ↦ ((isValid_iff.mp h).2 _ hmem).2.2 rfl

/-! ## Paths -/

variable {m : Type → Type} [Monad m]

/-- A digester that also writes down the paths it is given. -/
def Digester.traced (digester : Digester m) : Digester (StateT (List String) m) := fun path ↦ do
  modify (· ++ [path])
  digester path

namespace Manifest

variable [LawfulMonad m]

/-- **One path is asked for with each entry**, in order, and writing it down changes nothing. -/
theorem run_checkEntries_traced (digester : Digester m) (directory source : String)
    (entries : List FileEntry) (asked : List String) :
    (checkEntries digester.traced directory source entries).run asked = (do
      let result ← checkEntries digester directory source entries
      return (result, asked ++ entries.map fun e ↦ Path.join directory e.file)) := by
  induction entries generalizing asked with
  | nil => simp [checkEntries]
  | cons e entries ih =>
    have htraced (path : String) (before : List String) :
        (digester.traced path).run before = (do return (← digester path, before ++ [path])) := by
      simp [Digester.traced]
    simp only [checkEntries, StateT.run_bind, htraced, ih, StateT.run_pure, bind_assoc, pure_bind,
      List.map_cons, List.append_assoc, List.singleton_append]

/-- What a path that is asked for has to do with its entry: it is the directory and one component
more, which is the name.  In particular it is only as absolute as the directory, it has no NUL that
the directory does not have, and the name is none of those that mean something else. -/
structure IsPathOf (directory : String) (e : FileEntry) (path : String) : Prop where
  parts_eq : Path.parts path = Path.parts directory ++ [.normal e.file]
  isAbsolute_eq : Path.isAbsolute path = Path.isAbsolute directory
  nul_mem_iff : '\x00' ∈ path.toList ↔ '\x00' ∈ directory.toList
  file_relative : Path.isAbsolute e.file = false
  file_ne_current : e.file ≠ "."
  file_ne_parent : e.file ≠ ".."
  nul_notMem_file : '\x00' ∉ e.file.toList

theorem isPathOf_join (directory : String) {e : FileEntry}
    (h : FileName.isValid e.file = true) : IsPathOf directory e (Path.join directory e.file) := by
  have hnormal := FileName.isNormal_of_isValid h
  have hnul := FileName.nul_notMem_of_isValid h
  refine ⟨Path.parts_join hnormal, Path.isAbsolute_join hnormal, ?_, hnormal.isAbsolute_eq_false,
    hnormal.ne_current, hnormal.ne_parent, hnul⟩
  rw [Path.mem_toList_join (by decide) hnormal]
  exact or_iff_left hnul

/-- **The check never leaves its directory.**  For every manifest that has been read, every digester
and every directory, there is one path for each entry, and these are the paths that the digester is
asked for. -/
theorem paths_of_isObtained {manifest : Manifest} (h : manifest.IsObtained)
    (digester : Digester m) (directory : String) :
    ∃ asked : List String,
      (checkFiles manifest digester.traced directory).run [] =
        (do return (← checkFiles manifest digester directory, asked)) ∧
      List.Forall₂ (IsPathOf directory) manifest.files asked := by
  refine ⟨manifest.files.map fun e ↦ Path.join directory e.file, ?_, ?_⟩
  · rw [checkFiles, checkFiles, run_checkEntries_traced, List.nil_append]
  · rw [List.forall₂_map_right_iff, List.forall₂_same]
    exact fun e he ↦ isPathOf_join directory (h.wellFormed.isValid_of_mem e he)

/-- Two files of a manifest from its transfer form, the first of which does not have an ASCII name,
with no digest for either. -/
theorem paths_of_isObtained_two_files :
    let t : Time := ⟨1631880000, 0, by decide, by decide, by decide⟩
    let e₁ : FileEntry := ⟨"é..roa", List.replicate 32 0xAB, rfl⟩
    let e₂ : FileEntry := ⟨"b.crl", List.replicate 32 0xCD, rfl⟩
    let manifest : Manifest := ⟨"a.mft", .ofNat 200, ⟨t, t⟩, false, [e₁, e₂], "AB", "CD", none⟩
    let digester : Digester Id := fun path ↦ pure (.error (path ++ " is not there"))
    manifest.IsObtained ∧ ∃ asked : List String,
      (checkFiles manifest digester.traced "repo/ca").run [] =
        (do return (← checkFiles manifest digester "repo/ca", asked)) ∧
      List.Forall₂ (IsPathOf "repo/ca") [e₁, e₂] asked := by
  intro t e₁ e₂ manifest digester
  have hread : ofTransfer manifest.toTransfer = .ok manifest := by decide +kernel +zetaReduce
  have h : manifest.IsObtained := .ofTransfer hread
  exact ⟨h, paths_of_isObtained h digester "repo/ca"⟩

end Manifest

end Rpki
