import Rpki.Json
import Rpki.Manifest.Basic

/-!
# Manifests in JSON

`Manifest.toJson` and `Manifest.ofJson` write a manifest as a JSON value and read it back.  Unlike
the transfer form this one keeps the fractions of times.  When all members have been read, the
manifest is held to the same rules.
-/

set_option autoImplicit false

namespace Rpki

/-! ## Parts -/

namespace ValidityWindow

/-- A window as a JSON value. -/
def toJson (w : ValidityWindow) : Json :=
  .object [("this_update", .ofTime w.thisUpdate), ("next_update", .ofTime w.nextUpdate)]

/-- The two times of a window, in whatever order. -/
def ofJson? (j : Json) : Option ValidityWindow := do
  match ← j.fields? ["this_update", "next_update"] with
  | [some thisUpdate, some nextUpdate] =>
    return ⟨← thisUpdate.asTime?, ← nextUpdate.asTime?⟩
  | _ => none

end ValidityWindow

namespace FileEntry

/-- An entry as a JSON value. -/
def toJson (e : FileEntry) : Json :=
  .object [("file", .string e.file), ("hash", .ofOctets e.hash.val)]

/-- The parts of an entry, whatever the name. -/
def ofJson? (j : Json) : Option FileEntry := do
  match ← j.fields? ["file", "hash"] with
  | [some file, some hash] => return ⟨← file.asString?, ← hash.asFixed? 32⟩
  | _ => none

end FileEntry

/-! ## Manifests -/

namespace Manifest

/-- A manifest as a JSON value. -/
def toJson (m : Manifest) : Json :=
  .object
    [("source_path", .string m.path),
     ("manifest_number", .ofOctets m.number.octets.val),
     ("validity", m.window.toJson),
     ("stale", .bool m.stale),
     ("files", .array (m.files.map FileEntry.toJson)),
     ("ski", .string m.ski),
     ("aki", .string m.aki),
     ("aia", .ofOptional m.aia)]

/-- The names of the members. -/
def memberNames : List String :=
  ["source_path", "manifest_number", "validity", "stale", "files", "ski", "aki", "aia"]

/-- The manifest that the members describe, which may break any rule.  Only the location of the
issuer's certificate may be missing. -/
def members? (j : Json) : Option Manifest := do
  match ← j.fields? memberNames with
  | [some path, some number, some window, some stale, some files, some ski, some aki, aia] =>
    return {
      path := ← path.asString?
      number := ⟨← number.asFixed? 20⟩
      window := ← ValidityWindow.ofJson? window
      stale := ← stale.asBool?
      files := ← files.asList? FileEntry.ofJson?
      ski := ← ski.asString?
      aki := ← aki.asString?
      aia := ← (aia.getD .null).asOptional? }
  | _ => none

/-- The manifest with the given fields, which have to keep all rules. -/
def ofFields (fields : Manifest) : Except BrokenRule Manifest := do
  fields.check
  return fields

/-- The manifest that a JSON value is. -/
def ofJson (j : Json) : Except JsonError Manifest :=
  match members? j with
  | none => .error .shape
  | some fields => (ofFields fields).mapError .rule

end Manifest

end Rpki
