import Rpki.Command

/-!
# The executable

The same executable is both tools: called `readroa` it shows a ROA, and called by any other name it
shows a manifest.
-/

set_option autoImplicit false

namespace Rpki

/-- The text of an error with its number, as far as the system has given one. -/
def describe : IO.Error → String
  | .alreadyExists _ code details | .otherError code details | .resourceBusy code details
  | .resourceVanished code details | .unsupportedOperation code details
  | .hardwareFault code details | .unsatisfiedConstraints code details
  | .illegalOperation code details | .protocolError code details | .timeExpired code details
  | .interrupted _ code details | .noFileOrDirectory _ code details
  | .invalidArgument _ code details | .permissionDenied _ code details
  | .resourceExhausted _ code details | .inappropriateType _ code details
  | .noSuchThing _ code details => s!"{details} (os error {code})"
  | .unexpectedEof => "unexpected end of file"
  | .userError text => text

/-- Reads a file from the disk. -/
def readFile : Command.FileReader IO := fun path ↦ do
  try
    let content ← IO.FS.withFile path .read fun handle ↦ handle.readBinToEnd
    return .ok content.data.toList
  catch e =>
    return .error (describe e)

end Rpki

/-- Runs the tool that the executable is called by. -/
def main (args : List String) : IO UInt32 := do
  let name := (← IO.appPath).fileName.getD ""
  let tool := if name = "readroa" then Rpki.Command.readroa else Rpki.Command.readmft
  let outcome ← tool Rpki.readFile args
  IO.print outcome.stdout
  IO.eprint outcome.stderr
  return UInt32.ofNat outcome.status
