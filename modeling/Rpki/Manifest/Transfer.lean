import Rpki.Manifest.Basic
import Rpki.Transfer.Reader
import Rpki.Transfer.Writer

/-!
# The transfer form of manifests

The fields in order are: whether it is stale, the path, the number of files and for each its name
and hash, the location of the issuer's certificate, the authority's and the subject's key
identifier, the manifest number, and the two times.

Reading checks all rules again, so whatever the other process did, a manifest that has been read
lists only files in its own directory.  The rules for flag, names and times are checked on the way,
as soon as what they are about has been read, and the others in the end.
-/

set_option autoImplicit false

namespace Rpki

namespace Manifest

open Transfer

/-! ## Writing -/

/-- The octets of an entry. -/
def writeEntry (e : FileEntry) : Octets := Writer.string e.file ++ e.hash.val

/-- The transfer form of a manifest. -/
def toTransfer (m : Manifest) : Octets :=
  Writer.flag m.stale ++ Writer.string m.path ++
    Writer.length m.files.length ++ m.files.flatMap writeEntry ++
    Writer.optionalString m.aia ++ Writer.string m.aki ++ Writer.string m.ski ++
    m.number.octets.val ++ Writer.time m.window.thisUpdate ++ Writer.time m.window.nextUpdate

/-! ## Reading -/

/-- The least number of octets of an entry: the length of its name, and its hash. -/
def entryLength : Nat := 8 + 32

/-- Takes an entry. -/
def readEntry : Reader FileEntry := do
  let file ← Reader.string
  if FileName.isValid file then
    let hash ← Reader.fixed 32
    return ⟨file, hash⟩
  else
    Reader.fail (.badValue .fileName)

/-- Takes all entries, of which a stale manifest has none. -/
def readEntries (stale : Bool) : Reader (List FileEntry) := do
  let count ← Reader.count entryLength
  if stale ∧ 0 < count then Reader.fail (.badValue .filesInStaleManifest)
  else Reader.items readEntry count

/-- Takes the two times, which have to be in order. -/
def readWindow : Reader ValidityWindow := do
  let thisUpdate ← Reader.time
  let nextUpdate ← Reader.time
  match ValidityWindow.ofTimes thisUpdate nextUpdate with
  | .ok w => return w
  | .error _ => Reader.fail (.badValue .updateInterval)

/-- Takes a manifest, which has to be all there is. -/
def read : Reader Manifest := do
  let stale ← Reader.flag
  let path ← Reader.string
  let files ← readEntries stale
  let aia ← Reader.optionalString
  let aki ← Reader.string
  let ski ← Reader.string
  let number ← Reader.fixed 20
  let window ← readWindow
  Reader.finish
  let manifest : Manifest := ⟨path, ⟨number⟩, window, stale, files, ski, aki, aia⟩
  match manifest.check with
  | .ok () => return manifest
  | .error rule => Reader.fail (.badValue rule)

/-- The manifest with the given transfer form. -/
def ofTransfer (data : Octets) : Except TransferError Manifest := read.run data

end Manifest

end Rpki
