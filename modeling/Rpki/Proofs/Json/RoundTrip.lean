import Rpki.Proofs.IpAddress
import Rpki.Proofs.Json.Parts
import Rpki.Proofs.Manifest.Obtained
import Rpki.Proofs.Roa.Obtained

/-!
# Manifests and authorisations are read back from JSON

What is written of a manifest or a ROA describes all of it, so the members that are read are the
fields there were (`Manifest.members?_toJson`, `Roa.members?_toJson`), whether or not they keep the
rules.  After that the rules are checked once more.  They have been checked before, wherever the
object came from, and by different code; that the two agree is what makes the way back safe.

Nothing is lost: unlike in the transfer form times keep their fractions, leap seconds and years
outside of four digits included, and no text or list is too long.
-/

set_option autoImplicit false

namespace Rpki

/-! ## Parts of manifests -/

theorem ValidityWindow.ofJson?_toJson (w : ValidityWindow) : ofJson? w.toJson = some w := by
  have hfields : w.toJson.fields? ["this_update", "next_update"] =
      some [some (.ofTime w.thisUpdate), some (.ofTime w.nextUpdate)] :=
    Json.fields?_object rfl (by decide)
  simp only [ofJson?, hfields, Json.asTime?_ofTime, Option.bind_eq_bind, Option.bind_some,
    Option.pure_def]

theorem FileEntry.ofJson?_toJson (e : FileEntry) : ofJson? e.toJson = some e := by
  have hfields : e.toJson.fields? ["file", "hash"] =
      some [some (.string e.file), some (.ofOctets e.hash.val)] :=
    Json.fields?_object rfl (by decide)
  simp only [ofJson?, hfields, Json.asString?, Json.asFixed?_ofOctets, Option.bind_eq_bind,
    Option.bind_some, Option.pure_def]

/-! ## Parts of authorisations -/

theorem AddressFamily.ofJson?_name (f : AddressFamily) : ofJson? (.string f.name) = some f := by
  cases f <;> decide

theorem Prefix.ofJson?_toJson (p : Prefix) : ofJson? p.toJson = some p := by
  have hfields : p.toJson.fields? ["family", "addr", "prefix_len", "max_length"] =
      some [some (.string p.family.name), some (.string p.address.text),
        some (.integer p.length.toNat), some (.integer p.maxLength.toNat)] :=
    Json.fields?_object rfl (by decide)
  simp only [ofJson?, hfields, AddressFamily.ofJson?_name, Json.asString?, IpAddress.ofText?_text,
    Json.asUInt8?_toNat, Option.bind_eq_bind, Option.bind_some, Option.pure_def]

/-! ## Manifests -/

namespace Manifest

/-- **The members of a manifest are its fields.** -/
theorem members?_toJson (m : Manifest) : members? m.toJson = some m := by
  have hfields : m.toJson.fields? memberNames =
      some [some (.string m.path), some (.ofOctets m.number.octets.val), some m.window.toJson,
        some (.bool m.stale), some (.array (m.files.map FileEntry.toJson)), some (.string m.ski),
        some (.string m.aki), some (.ofOptional m.aia)] :=
    Json.fields?_object rfl (by decide)
  simp only [members?, hfields, Json.asString?, Json.asFixed?_ofOctets, Json.asBool?,
    ValidityWindow.ofJson?_toJson, Json.asList?_map m.files FileEntry.ofJson?_toJson,
    Option.getD_some, Json.asOptional?_ofOptional, Option.bind_eq_bind, Option.bind_some,
    Option.pure_def]

/-- A manifest is read back from JSON exactly if it keeps the rules. -/
theorem ofJson_toJson_iff {m : Manifest} : ofJson m.toJson = .ok m ↔ m.WellFormed := by
  rw [ofJson_eq_ok_iff, members?_toJson]
  exact and_iff_right rfl

end Manifest

/-! ## Authorisations -/

namespace Roa

/-- The ROA whose fields are each read from their member.  What the members are is left open, so
that nothing computes with the bound of a number. -/
theorem members?_eq_some {j path asId prefixes ski aki aia expires : Json} {r : Roa}
    (hfields : j.fields? memberNames =
      some [some path, some asId, some prefixes, some ski, some aki, some aia, some expires])
    (hpath : path.asString? = some r.path) (hasId : asId.asUInt32? = some r.asId)
    (hprefixes : prefixes.asList? Prefix.ofJson? = some r.prefixes)
    (hski : ski.asString? = some r.ski) (haki : aki.asString? = some r.aki)
    (haia : aia.asOptional? = some r.aia) (hexpires : expires.asTime? = some r.expires) :
    members? j = some r := by
  simp only [members?, hfields, hpath, hasId, hprefixes, hski, haki, haia, hexpires,
    Option.getD_some, Option.bind_eq_bind, Option.bind_some, Option.pure_def]

/-- **The members of a ROA are its fields.** -/
theorem members?_toJson (r : Roa) : members? r.toJson = some r :=
  members?_eq_some (Json.fields?_object rfl (by decide)) rfl (Json.asUInt32?_toNat r.asId)
    (Json.asList?_map r.prefixes Prefix.ofJson?_toJson) rfl rfl (Json.asOptional?_ofOptional r.aia)
    (Json.asTime?_ofTime r.expires)

/-- A ROA is read back from JSON exactly if it keeps the rules. -/
theorem ofJson_toJson_iff {r : Roa} : ofJson r.toJson = .ok r ↔ r.WellFormed := by
  rw [ofJson_eq_ok_iff, members?_toJson]
  exact and_iff_right rfl

end Roa

/-! ## Both -/

/-- **Manifests and authorisations are read back from JSON**, wherever they came from: each is
accepted, and it is the one that was written. -/
theorem Json.round_trip :
    (∀ m : Manifest, m.IsObtained → Manifest.ofJson m.toJson = .ok m) ∧
      ∀ r : Roa, r.IsObtained → Roa.ofJson r.toJson = .ok r :=
  ⟨fun _ h ↦ Manifest.ofJson_toJson_iff.mpr h.wellFormed,
    fun _ h ↦ Roa.ofJson_toJson_iff.mpr h.wellFormed⟩

/-- A manifest from its transfer form with a name that is not ASCII, and a ROA from a signed object
with an IPv6 prefix that expires in the middle of a leap second. -/
theorem Json.round_trip_leap_second :
    let a : Time := ⟨1631880000, 0, by decide, by decide, by decide⟩
    let b : Time := ⟨1631966400, 0, by decide, by decide, by decide⟩
    let leap : Time := ⟨1483228799, 1500000000, by decide, by decide, by decide⟩
    let manifest : Manifest := ⟨"é.mft", ⟨⟨List.replicate 20 1, rfl⟩⟩, ⟨a, b⟩, false,
      [⟨"é..roa", ⟨List.replicate 32 2, rfl⟩⟩], "AB", "CD", none⟩
    let content : Octets :=
      [0x30, 0x18, 0x02, 0x03, 0x00, 0xFD, 0xE8, 0x30, 0x11, 0x30, 0x0F, 0x04, 0x02, 0x00, 0x02,
       0x30, 0x09, 0x30, 0x07, 0x03, 0x05, 0x00, 0x20, 0x01, 0x0D, 0xB8]
    let certificate : Certificate := ⟨some "AB", some "CD", some "rsync://a/b.cer", leap⟩
    let unwrap : Unwrapper Id := fun _ _ ↦ pure (.ok ⟨certificate, content⟩)
    let address : IpAddress := .v6 ⟨[0x20, 0x01, 0x0D, 0xB8] ++ List.replicate 12 0, rfl⟩
    let roa : Roa :=
      ⟨"a.roa", 65000, [⟨.ipv6, address, 32, 32⟩], "AB", "CD", some "rsync://a/b.cer", leap⟩
    Manifest.ofTransfer manifest.toTransfer = .ok manifest ∧
      (Roa.parse unwrap [] "a.roa").run.value = .ok roa ∧
      Manifest.ofJson manifest.toJson = .ok manifest ∧ Roa.ofJson roa.toJson = .ok roa := by
  intro a b leap manifest content certificate unwrap address roa
  have hmanifest : Manifest.ofTransfer manifest.toTransfer = .ok manifest := by
    decide +kernel +zetaReduce
  have hroa : (Roa.parse unwrap [] "a.roa").run.value = .ok roa := by decide +kernel +zetaReduce
  have hread : MonadAttach.CanReturn (Roa.parse unwrap [] "a.roa")
    (Roa.parse unwrap [] "a.roa").run := rfl
  exact ⟨hmanifest, hroa, round_trip.1 manifest (.ofTransfer hmanifest),
    round_trip.2 roa (.parse hread hroa)⟩

end Rpki
