import Rpki.Json
import Rpki.Proofs.Time.Internet
import Rpki.Proofs.Traversal

/-!
# Parts of JSON values are read back

Whatever an object consists of is written as a JSON value of its own, and for each kind of part
there is a lemma that reading gives back what was written.  Those for numbers, octets and lists are
about the ranges and lengths that are checked; that for times rests on `InternetTime.read?_text`.

A structure is written as an object with its fields in order, and `Json.fields?_object` says that
their values are found again under their names.
-/

set_option autoImplicit false

namespace Rpki

namespace Json

/-! ## Single values -/

theorem asNat?_natCast {bound n : Nat} (h : n < bound) : asNat? bound (.integer n) = some n :=
  if_pos ⟨Int.natCast_nonneg n, Int.ofNat_lt.mpr h⟩

theorem asUInt8?_toNat (b : UInt8) : asUInt8? (.integer b.toNat) = some b := by
  rw [asUInt8?, asNat?_natCast b.toNat_lt, Option.map_some, UInt8.ofNat_toNat]

theorem asUInt32?_toNat (n : UInt32) : asUInt32? (.integer n.toNat) = some n := by
  have hnat : asNat? 0x100000000 (.integer n.toNat) = some n.toNat := asNat?_natCast n.toNat_lt
  rw [asUInt32?, hnat, Option.map_some, UInt32.ofNat_toNat]

theorem asOptional?_ofOptional (s : Option String) : asOptional? (ofOptional s) = some s := by
  cases s <;> rfl

theorem asTime?_ofTime (t : Time) : asTime? (ofTime t) = some t := by
  rw [asTime?, ofTime, asString?, Option.bind_eq_bind, Option.bind_some]
  exact InternetTime.read?_text t

/-! ## Lists -/

/-- A list is read back if its items are. -/
theorem asList?_map {α : Type} {write : α → Json} {item? : Json → Option α} (as : List α)
    (h : ∀ a, item? (write a) = some a) : asList? item? (.array (as.map write)) = some as :=
  mapM_map_eq_some fun a _ ↦ h a

theorem asFixed?_ofOctets {n : Nat} (o : FixedOctets n) : asFixed? n (ofOctets o.val) = some o := by
  rw [asFixed?, ofOctets, asList?_map o.val asUInt8?_toNat]
  exact dif_pos o.property

/-! ## Structures -/

/-- **The values of an object are found under their names**, if these are all different. -/
theorem fields?_object {names : List String} {members : List (String × Json)}
    (hnames : members.map Prod.fst = names) (h : names.Nodup) :
    fields? names (.object members) = some (members.map fun m ↦ some m.2) := by
  subst hnames
  rw [fields?, List.map_map, Option.some.injEq, List.map_inj_left]
  intro m hm
  obtain ⟨front, back, rfl⟩ := List.append_of_mem hm
  rw [List.map_append, List.map_cons, List.nodup_append] at h
  -- No member in front has the same name.
  have hfront : front.lookup m.1 = none := by
    rw [List.lookup_eq_none_iff]
    exact fun m' hm' ↦ bne_iff_ne.mpr
      (h.2.2 m'.1 (List.mem_map_of_mem hm') m.1 List.mem_cons_self).symm
  rw [Function.comp_apply, List.lookup_append, hfront, List.lookup_cons_self, Option.none_or]

end Json

end Rpki
