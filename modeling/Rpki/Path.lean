import Rpki.Text.Split

/-!
# Paths

Paths are texts with `/` between their components.  `Path.join` is what joins a name to a
directory; it is only a matter of text and does not look at the names.  `Path.components` is what a
path means: empty components and `.` mean nothing, and a path that starts with `/` starts at the
root.
-/

set_option autoImplicit false

namespace Rpki

namespace Path

/-- The text of a name relative to a directory.  A name that starts at the root is not relative to
anything, and a directory that ends in `/` needs no other. -/
def join (directory name : String) : String :=
  if name.toList.head? = some '/' ∨ directory = "" then name
  else if directory.toList.getLast? = some '/' then directory ++ name
  else directory ++ "/" ++ name

/-- Does the path start at the root? -/
def isAbsolute (path : String) : Bool := path.toList.head? == some '/'

/-- The components of a path that mean something, from the first to the last. -/
def components (path : String) : List String :=
  ((Text.split '/' path.toList).filter fun p ↦ p ≠ [] ∧ p ≠ ['.']).map String.ofList

end Path

end Rpki
