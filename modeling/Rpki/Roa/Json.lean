import Rpki.Json
import Rpki.Roa.Basic

/-!
# Route origin authorisations in JSON

`Roa.toJson` and `Roa.ofJson` write a ROA as a JSON value and read it back.  A prefix has a member
for its family besides its address, and whether the two agree is among the rules that are checked
in the end.
-/

set_option autoImplicit false

namespace Rpki

/-! ## Prefixes -/

namespace AddressFamily

/-- The family with a name. -/
def ofName? (name : String) : Option AddressFamily :=
  if name = ipv4.name then some ipv4 else if name = ipv6.name then some ipv6 else none

/-- The family that a JSON value is: its name, alone or as the one member of an object, which then
is `null`. -/
def ofJson? : Json → Option AddressFamily
  | .string name => ofName? name
  | .object [(name, .null)] => ofName? name
  | _ => none

end AddressFamily

namespace Prefix

/-- A prefix as a JSON value. -/
def toJson (p : Prefix) : Json :=
  .object
    [("family", .string p.family.name),
     ("addr", .string p.address.text),
     ("prefix_len", .integer p.length.toNat),
     ("max_length", .integer p.maxLength.toNat)]

/-- The parts of a prefix, which may not fit together. -/
def ofJson? (j : Json) : Option Prefix := do
  match ← j.fields? ["family", "addr", "prefix_len", "max_length"] with
  | [some family, some address, some length, some maxLength] =>
    return {
      family := ← AddressFamily.ofJson? family
      address := ← IpAddress.ofText? (← address.asString?)
      length := ← length.asUInt8?
      maxLength := ← maxLength.asUInt8? }
  | _ => none

end Prefix

/-! ## ROAs -/

namespace Roa

/-- A ROA as a JSON value. -/
def toJson (r : Roa) : Json :=
  .object
    [("source_path", .string r.path),
     ("as_id", .integer r.asId.toNat),
     ("addresses", .array (r.prefixes.map Prefix.toJson)),
     ("ski", .string r.ski),
     ("aki", .string r.aki),
     ("aia", .ofOptional r.aia),
     ("expires", .ofTime r.expires)]

/-- The names of the members. -/
def memberNames : List String :=
  ["source_path", "as_id", "addresses", "ski", "aki", "aia", "expires"]

/-- The ROA that the members describe, which may break any rule.  Only the location of the issuer's
certificate may be missing. -/
def members? (j : Json) : Option Roa := do
  match ← j.fields? memberNames with
  | [some path, some asId, some prefixes, some ski, some aki, aia, some expires] =>
    return {
      path := ← path.asString?
      asId := ← asId.asUInt32?
      prefixes := ← prefixes.asList? Prefix.ofJson?
      ski := ← ski.asString?
      aki := ← aki.asString?
      aia := ← (aia.getD .null).asOptional?
      expires := ← expires.asTime? }
  | _ => none

/-- The ROA with the given fields, which have to keep all rules. -/
def ofFields (fields : Roa) : Except BrokenRule Roa := do
  fields.check
  return fields

/-- The ROA that a JSON value is. -/
def ofJson (j : Json) : Except JsonError Roa :=
  match members? j with
  | none => .error .shape
  | some fields => (ofFields fields).mapError .rule

end Roa

end Rpki
