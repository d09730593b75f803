import Rpki.Manifest.Entry
import Rpki.Manifest.Number

/-!
# The content of a manifest

The content is a sequence of a number, two times, a hash algorithm and a list of files.  A manifest
that is out of date keeps nothing of its file list, so reading comes in two steps: `Head.decode`
reads up to the times, and `Head.files` the rest for those who want it.  `ManifestContent.decode`
does both.
-/

set_option autoImplicit false

namespace Rpki

/-- The content of a manifest. -/
structure ManifestContent where
  number : ManifestNumber
  window : ValidityWindow
  /-- The files in the order of the list. -/
  files : List FileEntry
deriving DecidableEq

namespace ManifestContent

/-- Content that has been read up to the times. -/
structure Head where
  number : ManifestNumber
  window : ValidityWindow
  /-- All elements of the content. -/
  elements : Der.Sequence

namespace Head

/-- Reads the content up to the times.  Six elements are five and a version in front. -/
def decode (content : Octets) : Except ParseError Head := do
  let elements ← inField .manifest (Der.Sequence.decode content)
  let count ← inField .manifest (elements.checkCount [5, 6])
  if count = 6 then
    .error (explicitVersion elements)
  else
    let number ← inField .manifestNumber (elements.integer 0)
    let number ← asValue (ManifestNumber.ofInteger number)
    let thisUpdate ← inField .thisUpdate (elements.generalizedTime 1)
    let nextUpdate ← inField .nextUpdate (elements.generalizedTime 2)
    let window ← asValue
      ((ValidityWindow.ofGeneralizedTimes thisUpdate nextUpdate).mapError .time)
    return ⟨number, window, elements⟩

/-- Reads the hash algorithm, which has to be SHA-256, and the file list. -/
def files (h : Head) : Except ParseError (List FileEntry) := do
  let algorithm ← inField .fileHashAlg (h.elements.oid 3)
  if algorithm = .sha256 then
    let list ← inField .fileList (h.elements.sequence 4)
    FileEntry.readList list
  else
    asValue (.error (.hashAlgorithm algorithm))

end Head

/-- Reads the content. -/
def decode (content : Octets) : Except ParseError ManifestContent := do
  let head ← Head.decode content
  let files ← head.files
  return ⟨head.number, head.window, files⟩

end ManifestContent

end Rpki
