import Rpki.Manifest.Content

/-!
# Drafts of manifests

A `Draft` is what the publisher of a manifest fills in before it is signed.  Nothing in it is
checked: the times may be in the wrong order, a name may be no name and a hash no digest.  What is
written for it can then be used to see how a reader deals with such a manifest.
-/

set_option autoImplicit false

namespace Rpki

/-- The content of a manifest that is yet to be written. -/
structure Draft where
  number : ManifestNumber
  thisUpdate : Time
  nextUpdate : Time
  /-- The names and hashes of the files so far. -/
  files : List (String × Octets) := []

namespace Draft

/-- Puts a name and a hash at the end of the list, whatever they are. -/
def pushPair (d : Draft) (file : String) (hash : Octets) : Draft :=
  { d with files := d.files ++ [(file, hash)] }

/-- Puts an entry at the end of the list. -/
def push (d : Draft) (entry : FileEntry) : Draft := d.pushPair entry.file entry.hash.val

/-- The sequence for a name and a hash. -/
def encodePair (pair : String × Octets) : Der.Encoded :=
  .sequence [.ia5String pair.1, .bitString pair.2]

/-- The content for a draft. -/
def encode (d : Draft) : Der.Encoded :=
  .sequence
    [d.number.encode, .generalizedTime d.thisUpdate, .generalizedTime d.nextUpdate, .oid .sha256,
     .sequence (d.files.map encodePair)]

/-- The octets of the content for a draft. -/
def octets (d : Draft) : Octets := d.encode.octets

end Draft

/-- The draft that has given content. -/
def ManifestContent.draft (c : ManifestContent) : Draft :=
  ⟨c.number, c.window.thisUpdate, c.window.nextUpdate, c.files.map fun e ↦ (e.file, e.hash.val)⟩

end Rpki
