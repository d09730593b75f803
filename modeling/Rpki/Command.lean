import Rpki.Hex
import Rpki.Manifest.HashCheck
import Rpki.Manifest.Transfer
import Rpki.Roa.Transfer

/-!
# The command line tools

`readmft` shows a manifest and compares files with it; `readroa` shows a ROA.  Both read the object
in its transfer form from the file named first.

A tool is a function of its arguments that yields what it prints and whether it succeeds.  The one
thing it needs of its surroundings is how to read a file.
-/

set_option autoImplicit false

namespace Rpki

namespace Command

/-- What a tool leaves behind. -/
structure Outcome where
  /-- The exit status, zero for success. -/
  status : Nat
  stdout : String
  stderr : String
deriving DecidableEq

/-- Reads the file at a path, or says why that is not possible. -/
abbrev FileReader (m : Type → Type) := String → m (Except String Octets)

/-- The lines as a text. -/
def unlines (lines : List String) : String := String.join (lines.map (· ++ "\n"))

/-- The outcome of a tool that prints lines and succeeds, or prints lines and then fails for a
reason. -/
def Outcome.of (lines : List String) : Option String → Outcome
  | none => ⟨0, unlines lines, ""⟩
  | some reason => ⟨1, unlines lines, unlines [reason]⟩

/-- The lines that objects of all kinds start with. -/
def headLines (ski aki : String) (aia : Option String) : List String :=
  ["Subject key identifier:   " ++ KeyIdentifier.pretty ski,
   "Authority key identifier: " ++ KeyIdentifier.pretty aki,
   "Authority info access:    " ++ aia.getD "(none)"]

/-- The lines for items numbered from `n` on. -/
def numbered {α : Type} (lines : String → α → List String) : Nat → List α → List String
  | _, [] => []
  | n, a :: as => lines (Decimal.aligned 5 n) a ++ numbered lines (n + 1) as

/-! ## Manifests -/

/-- The lines that show a manifest. -/
def manifestLines (m : Manifest) : List String :=
  headLines m.ski m.aki m.aia ++
    [s!"Manifest number:          {m.number}",
     s!"This update:              {m.window.thisUpdate}",
     s!"Next update:              {m.window.nextUpdate}"] ++
    (if m.stale then ["Stale:                    yes"] else []) ++
    numbered (fun n e ↦ [s!"{n}: {e.file}", "       hash " ++ e.hash.text]) 1 m.files

/-- The lines for the files that do not match, and the summary of a failure. -/
def mismatchLines (m : Manifest) (bad : List HashMismatch) : List String × Option String :=
  if bad = [] then ([s!"All {m.files.length} files match."], none)
  else (bad.map HashMismatch.text, some s!"{bad.length} of {m.files.length} files failed")

section

variable {m : Type → Type} [Monad m]

/-- Shows the manifest in the file at `path` and compares the files in a directory with it, if one
is given. -/
def showManifest (readFile : FileReader m) (path : String) (directory : Option String) :
    m Outcome := do
  match ← readFile path with
  | .error reason => return .of [] (some s!"Can’t read file: {reason}")
  | .ok data =>
    match Manifest.ofTransfer data with
    | .error e => return .of [] (some s!"Can't decode manifest: {e.message}")
    | .ok manifest =>
      let shown := manifestLines manifest
      match directory with
      | none => return .of shown none
      | some directory =>
        let digester := fun file ↦ do return (← readFile file).map Sha256.digest
        let checked ← manifest.checkFiles digester directory
        let (lines, failure) := mismatchLines manifest checked.value
        return .of (shown ++ lines) failure

/-- The tool that shows manifests. -/
def readmft (readFile : FileReader m) : List String → m Outcome
  | [path] => showManifest readFile path none
  | [path, directory] => showManifest readFile path (some directory)
  | _ => return .of [] (some "Usage: readmft <path> [dir]")

/-! ## Route origin authorisations -/

/-- The lines that show a ROA. -/
def roaLines (r : Roa) : List String :=
  headLines r.ski r.aki r.aia ++
    [s!"ROA valid until:          {r.expires}",
     s!"asID:                     {r.asId}"] ++
    numbered (fun n p ↦ [s!"{n}: {p.text} (max: {p.maxLength})"]) 1 r.prefixes

/-- The tool that shows ROAs.  It takes no notice of further arguments. -/
def readroa (readFile : FileReader m) : List String → m Outcome
  | [] => return .of [] (some "Usage: readroa <path>")
  | path :: _ => do
    match ← readFile path with
    | .error reason => return .of [] (some s!"Can’t read file: {reason}")
    | .ok data =>
      match Roa.ofTransfer data with
      | .error e => return .of [] (some s!"Can’t decode roa: {e.message}")
      | .ok roa => return .of (roaLines roa) none

end

end Command

end Rpki
