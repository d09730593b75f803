import Rpki.Octets
import Rpki.Path

/-!
# File trees

A `FileTree` stands in for the files on a disk where there is none to be had: reading from one
answers as a disk would, in content and in the text of errors.  So a manifest can be compared with
files that are only in memory.

A path is followed one part at a time.  Every part but the first has to come after a directory, the
empty part behind a final `/` included, and which error a path ends in depends on the first part
that cannot be followed.
-/

set_option autoImplicit false

namespace Rpki

/-- A file or a directory with everything below it. -/
inductive FileTree
  | file (content : Octets)
  | directory (entries : List (String × FileTree))

/-- Why the file at a path cannot be read. -/
inductive ReadError
  | notFound
  | notADirectory
  | isADirectory
  | nameTooLong
deriving DecidableEq

namespace ReadError

/-- The text of an error, with its number. -/
def message : ReadError → String
  | notFound => "No such file or directory (os error 2)"
  | notADirectory => "Not a directory (os error 20)"
  | isADirectory => "Is a directory (os error 21)"
  | nameTooLong => "File name too long (os error 36)"

end ReadError

namespace FileTree

/-- The number of octets that the name of a file may have. -/
def longestName : Nat := 255

/-- The number of octets that a path may have. -/
def longestPath : Nat := 4095

/-- A place in a tree: the file or directory itself, and the directories above it, nearest first. -/
structure Place where
  here : FileTree
  above : List FileTree := []

/-- Follows one part of a path.  Nothing is above the root, so `..` stays there. -/
def Place.step (p : Place) (part : String) : Except ReadError Place :=
  match p.here with
  | .file _ => .error .notADirectory
  | .directory entries =>
    if part = "" ∨ part = "." then .ok p
    else if part = ".." then
      match p.above with
      | [] => .ok p
      | parent :: above => .ok ⟨parent, above⟩
    else if longestName < part.utf8ByteSize then .error .nameTooLong
    else
      match entries.lookup part with
      | none => .error .notFound
      | some tree => .ok ⟨tree, p.here :: p.above⟩

/-- Where a path leads that starts at the root, or at a working directory if it is relative. -/
def Place.follow (root working : Place) (path : String) : Except ReadError Place :=
  if path = "" then .error .notFound
  else if longestPath < path.utf8ByteSize then .error .nameTooLong
  else
    let start := if Path.isAbsolute path then root else working
    ((Text.split '/' path.toList).map String.ofList).foldlM Place.step start

/-- The content of the file at a path, for somebody who works in a directory of the tree. -/
def readFrom (tree : FileTree) (directory path : String) : Except ReadError Octets := do
  let root : Place := ⟨tree, []⟩
  let working ← root.follow root directory
  let place ← root.follow working path
  match place.here with
  | .file content => .ok content
  | .directory _ => .error .isADirectory

/-- The content of the file at a path from the root. -/
def read (tree : FileTree) (path : String) : Except ReadError Octets := tree.readFrom "/" path

end FileTree

end Rpki
