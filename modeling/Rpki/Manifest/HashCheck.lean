import Rpki.Log
import Rpki.Manifest.Basic
import Rpki.Path

/-!
# Comparing files with a manifest

Every file on the list is asked for once, in the order of the list, and compared with its hash.
Nothing ends the check early: the result has all files that are bad, whether their digest is another
one or there is none to be had.

Where digests come from is a parameter, a `Digester`, which is given the path of a file.
-/

set_option autoImplicit false

namespace Rpki

/-- Finds the digest of the file at a path, or says why there is none. -/
abbrev Digester (m : Type → Type) := String → m (Except String Digest)

/-- A file that is not what the manifest says. -/
structure HashMismatch where
  file : String
  /-- The digest on the manifest. -/
  expected : Digest
  /-- The digest of the file, if it has one. -/
  actual : Option Digest
deriving DecidableEq

namespace HashMismatch

/-- The text a mismatch is shown as. -/
def text (h : HashMismatch) : String :=
  match h.actual with
  | some actual =>
    s!"bad message digest for {h.file}: expected {h.expected.text}, have {actual.text}"
  | none => s!"cannot read {h.file}"

end HashMismatch

namespace Manifest

/-- What the answer of a digester means for an entry of the manifest from `source`.  `path` is the
path the digester was asked for. -/
def judge (source path : String) (e : FileEntry) (answer : Except String Digest) :
    Logged (Option HashMismatch) :=
  let bad := ⟨.warning, s!"{source}: bad message digest for {e.file}"⟩
  match answer with
  | .ok actual =>
    if actual = e.hash then ⟨none, []⟩ else ⟨some ⟨e.file, e.hash, some actual⟩, [bad]⟩
  | .error reason =>
    ⟨some ⟨e.file, e.hash, none⟩, [⟨.warning, s!"{source}: cannot read {path}: {reason}"⟩, bad]⟩

variable {m : Type → Type} [Monad m]

/-- The mismatches among entries. -/
def checkEntries (digester : Digester m) (directory source : String) :
    List FileEntry → m (Logged (List HashMismatch))
  | [] => return ⟨[], []⟩
  | e :: es => do
    let path := Path.join directory e.file
    let answer ← digester path
    let first := judge source path e answer
    let others ← checkEntries digester directory source es
    return ⟨first.value.toList ++ others.value, first.log ++ others.log⟩

/-- The files on the list whose digest in the directory is not the listed one.  The manifest matches
the directory when there are none. -/
def checkFiles (manifest : Manifest) (digester : Digester m) (directory : String) :
    m (Logged (List HashMismatch)) :=
  checkEntries digester directory manifest.path manifest.files

end Manifest

end Rpki
