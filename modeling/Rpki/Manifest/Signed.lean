import Rpki.Log
import Rpki.Manifest.Basic
import Rpki.SignedObject

/-!
# Manifests from signed objects

Reading a manifest for use at a given time.  The times come first: a manifest that is not valid yet
is refused, one that is out of date is taken without its file list, which is not even looked at,
and only one that is current has to have a file list in order.

`Manifest.ofSigned` decides all that.  `Manifest.parse` goes around it, with the envelope in front
and the log lines behind; what is logged depends on the result alone.
-/

set_option autoImplicit false

namespace Rpki

namespace Manifest

/-- The manifest in the content of a signed object, as of `now`. -/
def ofSigned (path : String) (now : Time) (signed : SignedContent) :
    Except ParseError Manifest := do
  let ids ← KeyIds.ofCertificate signed.certificate
  let head ← ManifestContent.Head.decode signed.content
  match head.window.check now with
  | .tooEarly => .error (.notYetValid head.window.thisUpdate)
  | .stale => return ⟨path, head.number, head.window, true, [], ids.ski, ids.aki, ids.aia⟩
  | .current =>
    let files ← head.files
    return ⟨path, head.number, head.window, false, files, ids.ski, ids.aki, ids.aia⟩

/-- The lines that are logged for the result of reading a manifest. -/
def resultLog (path : String) : Except ParseError Manifest → List LogEntry
  | .ok m =>
    let read := ⟨.debug, s!"{path}: manifest {m.number} with {m.files.length} files"⟩
    if m.stale then
      [⟨.warning, s!"{path}: manifest expired on {m.window.nextUpdate}"⟩, read]
    else
      [read]
  | .error e => [⟨.warning, s!"{path}: {e.message}"⟩]

variable {m : Type → Type} [Monad m]

/-- Reads the manifest in a signed object as of `now`, and returns its certificate too. -/
def parseWithCertificate (unwrap : Unwrapper m) (data : Octets) (path : String) (now : Time) :
    m (Logged (Except ParseError (Certificate × Manifest))) := do
  let opened ← unwrap data .manifest
  let result := do
    let signed ← opened.mapError .envelope
    let manifest ← ofSigned path now signed
    return (signed.certificate, manifest)
  return ⟨result, resultLog path (result.map (·.2))⟩

/-- Reads the manifest in a signed object as of `now`. -/
def parse (unwrap : Unwrapper m) (data : Octets) (path : String) (now : Time) :
    m (Logged (Except ParseError Manifest)) := do
  let read ← parseWithCertificate unwrap data path now
  return read.map (Except.map Prod.snd)

end Manifest

end Rpki
