import Rpki.Manifest.Transfer
import Rpki.Proofs.Machine.Reader
import Rpki.Proofs.Machine.RoaContent
import Rpki.Proofs.Machine.Text
import Rpki.Roa.Transfer

/-!
# No decoder stops

What comes from elsewhere is read by four decoders: those of the content of manifests and of route
origin authorisations, and those of their transfer forms.  On a machine each has operations that are
only defined for some arguments, and the checks that keep the arguments inside are often made by
another function.  `Machine.decoders_eq` says that none is ever missing: on any octets that can be
in memory the decoders on a machine have a result, which is the one of the library.  So does showing
the numbers and digests that are read.

Two things are left out.  Room for texts and lists is taken to be there.  And stepping through the
encoding of values, calculating with dates, and showing addresses and dates have no operations here
that could fail.
-/

set_option autoImplicit false

namespace Rpki

namespace Machine

/-! ## Manifests -/

/-- Takes an entry. -/
def readEntry : Reader FileEntry := do
  let file ← Reader.string
  if FileName.isValid file then
    let hash ← Reader.fixed 32
    return ⟨file, hash⟩
  else
    Reader.fail (.badValue .fileName)

/-- Takes all entries, of which a stale manifest has none. -/
def readEntries (stale : Bool) : Reader (List FileEntry) := do
  let count ← Reader.count Manifest.entryLength
  if stale ∧ 0 < count then Reader.fail (.badValue .filesInStaleManifest)
  else Reader.items readEntry count

/-- Takes the two times, which have to be in order. -/
def readWindow : Reader ValidityWindow := do
  let thisUpdate ← Reader.time
  let nextUpdate ← Reader.time
  match ValidityWindow.ofTimes thisUpdate nextUpdate with
  | .ok w => return w
  | .error _ => Reader.fail (.badValue .updateInterval)

/-- Takes a manifest, which has to be all there is. -/
def readManifest : Reader Manifest := do
  let stale ← Reader.flag
  let path ← Reader.string
  let files ← readEntries stale
  let aia ← Reader.optionalString
  let aki ← Reader.string
  let ski ← Reader.string
  let number ← Reader.fixed 20
  let window ← readWindow
  Reader.finish
  let manifest : Manifest := ⟨path, ⟨number⟩, window, stale, files, ski, aki, aia⟩
  match manifest.check with
  | .ok () => return manifest
  | .error rule => Reader.fail (.badValue rule)

theorem reads_readEntry : Reads readEntry Manifest.readEntry := by
  refine reads_bind reads_string fun file ↦ ?_
  split
  · exact reads_bind (reads_fixed 32) fun hash ↦ reads_pure _
  · exact reads_fail _

theorem reads_readEntries (stale : Bool) :
    Reads (readEntries stale) (Manifest.readEntries stale) := by
  refine reads_bind (reads_count (by decide)) fun count ↦ ?_
  split
  · exact reads_fail _
  · exact reads_items reads_readEntry count

theorem reads_readWindow : Reads readWindow Manifest.readWindow := by
  refine reads_bind reads_time fun thisUpdate ↦ reads_bind reads_time fun nextUpdate ↦ ?_
  cases ValidityWindow.ofTimes thisUpdate nextUpdate with
  | ok w => exact reads_pure w
  | error e => exact reads_fail _

theorem reads_readManifest : Reads readManifest Manifest.read := by
  refine reads_bind reads_flag fun stale ↦ ?_
  refine reads_bind reads_string fun path ↦ ?_
  refine reads_bind (reads_readEntries stale) fun files ↦ ?_
  refine reads_bind reads_optionalString fun aia ↦ ?_
  refine reads_bind reads_string fun aki ↦ ?_
  refine reads_bind reads_string fun ski ↦ ?_
  refine reads_bind (reads_fixed 20) fun number ↦ ?_
  refine reads_bind reads_readWindow fun window ↦ ?_
  refine reads_bind reads_finish fun _ ↦ ?_
  dsimp only
  cases Manifest.check ⟨path, ⟨number⟩, window, stale, files, ski, aki, aia⟩ with
  | ok u => exact reads_pure _
  | error rule => exact reads_fail _

/-! ## Route origin authorisations -/

/-- Takes a prefix. -/
def readPrefix : Reader Prefix := do
  match AddressFamily.ofNumber? (← Reader.number 2 UInt16.ofNat) with
  | none => Reader.fail (.badValue .addressFamily)
  | some family =>
    let length ← Reader.number 1 UInt8.ofNat
    let maxLength ← Reader.number 1 UInt8.ofNat
    let octets ← Reader.fixed 16
    match ← Reader.operation (prefixOfOctets family octets length (some maxLength)).run with
    | .ok p => return p
    | .error _ => Reader.fail (.badValue .roaPrefix)

/-- Are all prefixes ones that keep the rules?  The first that does not ends the test. -/
def areValid : List Prefix → Option Bool
  | [] => return true
  | p :: ps => do
    if ← isValid p then areValid ps else return false

/-- Names the first rule that a ROA breaks. -/
def checkRoa (r : Roa) : ExceptT BrokenRule Option Unit := do
  if ← areValid r.prefixes then
    if r.aki = "" ∨ r.ski = "" then throw .missingKeyIdentifier
    else if r.aia = some "" then throw .emptyIssuerLocation
    else return ()
  else throw .roaPrefix

/-- Takes a ROA, which has to be all there is. -/
def readRoa : Reader Roa := do
  let path ← Reader.string
  let asId ← Reader.number 4 UInt32.ofNat
  let expires ← Reader.time
  let count ← Reader.count Roa.prefixOctets
  let prefixes ← Reader.items readPrefix count
  let aia ← Reader.optionalString
  let aki ← Reader.string
  let ski ← Reader.string
  Reader.finish
  let roa : Roa := ⟨path, asId, prefixes, ski, aki, aia, expires⟩
  match ← Reader.operation (checkRoa roa).run with
  | .ok () => return roa
  | .error rule => Reader.fail (.badValue rule)

theorem reads_readPrefix : Reads readPrefix Roa.readPrefix := by
  refine reads_bind (reads_number 2 UInt16.ofNat) fun n ↦ ?_
  cases AddressFamily.ofNumber? n with
  | none => exact reads_fail _
  | some family =>
    refine reads_bind (reads_number 1 UInt8.ofNat) fun length ↦ ?_
    refine reads_bind (reads_number 1 UInt8.ofNat) fun maxLength ↦ ?_
    refine reads_bind (reads_fixed 16) fun octets ↦ ?_
    refine reads_operation (computes_prefixOfOctets family octets length (some maxLength)) ?_
    cases Prefix.ofOctets family octets length (some maxLength) with
    | ok p => exact reads_pure p
    | error e => exact reads_fail _

theorem areValid_eq (ps : List Prefix) :
    areValid ps = some (decide (∀ p ∈ ps, p.isValid = true)) := by
  induction ps with
  | nil => rfl
  | cons p ps ih =>
    rw [areValid, isValid_eq, Option.bind_eq_bind, Option.bind_some, ih]
    cases h : p.isValid <;> simp [h]

theorem computes_checkRoa (r : Roa) : Computes (checkRoa r) r.check := by
  refine computes_operation (areValid_eq r.prefixes) ?_
  rw [Roa.check]
  by_cases hvalid : ∀ p ∈ r.prefixes, p.isValid = true
  · have hnone : ¬∃ p ∈ r.prefixes, p.isValid = false := by
      rintro ⟨p, hp, hfalse⟩
      exact Bool.false_ne_true (hfalse.symm.trans (hvalid p hp))
    rw [if_pos (decide_eq_true hvalid), if_neg hnone]
    split
    · exact computes_error _
    split
    · exact computes_error _
    · exact computes_ok ()
  · have hsome : ∃ p ∈ r.prefixes, p.isValid = false := by
      simpa only [not_forall, Bool.not_eq_true, exists_prop] using hvalid
    rw [if_neg (by simpa only [decide_eq_true_eq] using hvalid), if_pos hsome]
    exact computes_error _

theorem reads_readRoa : Reads readRoa Roa.read := by
  refine reads_bind reads_string fun path ↦ ?_
  refine reads_bind (reads_number 4 UInt32.ofNat) fun asId ↦ ?_
  refine reads_bind reads_time fun expires ↦ ?_
  refine reads_bind (reads_count (by decide)) fun count ↦ ?_
  refine reads_bind (reads_items reads_readPrefix count) fun prefixes ↦ ?_
  refine reads_bind reads_optionalString fun aia ↦ ?_
  refine reads_bind reads_string fun aki ↦ ?_
  refine reads_bind reads_string fun ski ↦ ?_
  refine reads_bind reads_finish fun _ ↦ ?_
  refine reads_operation (computes_checkRoa ⟨path, asId, prefixes, ski, aki, aia, expires⟩) ?_
  dsimp only
  cases Roa.check ⟨path, asId, prefixes, ski, aki, aia, expires⟩ with
  | ok u => exact reads_pure _
  | error rule => exact reads_fail _

/-! ## Decoders -/

/-- **The decoders of what comes from elsewhere never stop**, and neither does showing what they
return: on octets that can be in memory, a machine has the results of the library. -/
theorem decoders_eq (data : Octets) (h : data.length < 2 ^ 63) :
    (decodeManifestContent data).run = some (ManifestContent.decode data) ∧
      (decodeRoaContent data).run = some (RoaContent.decode data) ∧
      readManifest.run data = some (Manifest.ofTransfer data) ∧
      readRoa.run data = some (Roa.ofTransfer data) ∧
      (∀ n : ManifestNumber, numberText n = some n.text) ∧
      ∀ d : Digest, digestText d = some (Digest.text d) :=
  ⟨computes_decodeManifestContent data, computes_decodeRoaContent data,
    reads_readManifest.run_eq h, reads_readRoa.run_eq h, numberText_eq, digestText_eq⟩

/-- The content of a ROA for 10.0.0.0/8 is read as one, and is no transfer form of a manifest. -/
theorem decoders_eq_content_of_one_prefix :
    let data : Octets :=
      [0x30, 0x15, 0x02, 0x03, 0x00, 0xFD, 0xE8, 0x30, 0x0E, 0x30, 0x0C, 0x04, 0x02, 0x00, 0x01,
       0x30, 0x06, 0x30, 0x04, 0x03, 0x02, 0x00, 0x0A]
    let p : Prefix := ⟨.ipv4, .v4 ⟨[10, 0, 0, 0], rfl⟩, 8, 8⟩
    data.length < 2 ^ 63 ∧ (decodeRoaContent data).run = some (.ok ⟨65000, [p]⟩) ∧
      readManifest.run data = some (.error (.badFlag 0x03021530)) ∧
      numberText (.ofNat 0xA5) = some "A5" := by
  intro data p
  have hlength : data.length < 2 ^ 63 := by decide
  have hroa : RoaContent.decode data = .ok ⟨65000, [p]⟩ := by decide +kernel +zetaReduce
  have hmanifest : Manifest.ofTransfer data = .error (.badFlag 0x03021530) := by
    decide +kernel +zetaReduce
  have htext : ManifestNumber.text (.ofNat 0xA5) = "A5" := by decide +kernel
  obtain ⟨-, hcontent, htransfer, -, hnumber, -⟩ := decoders_eq data hlength
  exact ⟨hlength, hcontent.trans (congrArg some hroa), htransfer.trans (congrArg some hmanifest),
    (hnumber _).trans (congrArg some htext)⟩

end Machine

end Rpki
