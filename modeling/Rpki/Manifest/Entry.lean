import Rpki.Hex
import Rpki.Sha256
import Rpki.SignedObject

/-!
# Entries of a manifest

An entry is the name of a file and the SHA-256 digest of its content.

A name comes from whoever signed the manifest and ends up in a path, so it has to be a plain one:
no separators, not even those of other systems, no NUL, and long enough for a suffix of three
letters.  That is at least five octets, which also keeps out the names of directories, `.` and
`..`.
-/

set_option autoImplicit false

namespace Rpki

/-! ## Digests -/

namespace Digest

/-- The digest with the given octets, if their number is right. -/
def ofOctets (o : Octets) : Except SemanticError Digest :=
  match FixedOctets.ofOctets? o with
  | some d => .ok d
  | none => .error (.hashLength o.length)

/-- The text a digest is shown as. -/
def text (d : Digest) : String := Hex.encode d.val

/-- The text with the type in front, for messages to developers. -/
def debugText (d : Digest) : String := s!"ManifestHash({text d})"

/-- Is it the digest of the octets? -/
def isOf (d : Digest) (o : Octets) : Bool := Sha256.digest o == d

end Digest

/-! ## Names -/

namespace FileName

/-- Does the character have a meaning in paths? -/
def isReserved (c : Char) : Bool := c == '/' || c == '\\' || c == '\x00'

/-- Succeeds for plain names that are long enough. -/
def check (name : String) : Except SemanticError Unit :=
  if name.toList.any isReserved then .error (.nameNotPlain name)
  else if name.utf8ByteSize ≤ 4 then .error (.nameTooShort name)
  else .ok ()

/-- Is it a name that an entry may have? -/
def isValid (name : String) : Bool := !name.toList.any isReserved && 4 < name.utf8ByteSize

theorem check_eq_ok_iff (name : String) : check name = .ok () ↔ isValid name = true := by
  unfold check isValid
  cases name.toList.any isReserved <;> simp

end FileName

/-! ## Entries -/

/-- An entry of the file list. -/
structure FileEntry where
  /-- The name of the file. -/
  file : String
  /-- The digest of its content. -/
  hash : Digest
deriving DecidableEq

namespace FileEntry

/-- The entry with the given parts, if the name can be a name. -/
def ofParts (file : String) (hash : Digest) : Except SemanticError FileEntry := do
  FileName.check file
  return ⟨file, hash⟩

/-- Reads an entry from its elements: an IA5String and a BIT STRING of whole octets. -/
def ofElements (item : Der.Sequence) : Except ParseError FileEntry := do
  let _ ← inField .fileAndHash (item.checkCount [2])
  match ← inField .fileAndHash (item.ia5String 0) with
  | none => asValue (.error .nameNotAscii)
  | some file =>
    asValue (FileName.check file)
    let hash ← inField .fileAndHash (item.bitString 1)
    if hash.unused = 0 then
      return ⟨file, ← asValue (Digest.ofOctets hash.octets)⟩
    else
      inField .fileAndHash (Der.fail (.badValue 1 .bitString .hashWithUnusedBits))

/-- Reads the entries of a file list.  A single bad one fails the whole list. -/
def readList (list : Der.Sequence) : Except ParseError (List FileEntry) :=
  readEach .fileList ofElements 0 list

end FileEntry

end Rpki
