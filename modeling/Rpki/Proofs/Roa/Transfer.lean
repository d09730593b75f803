import Rpki.Proofs.Roa.Prefix
import Rpki.Proofs.Transfer.Reader
import Rpki.Roa.Transfer

/-!
# The transfer form of route origin authorisations has one spelling

What `Rpki.Proofs.Manifest.Transfer` says of manifests, for ROAs: the ones that can be read are
those that keep the rules, expire at a whole second and have no text or list whose length does not
fit into 64 bits, and each is read from the octets that are written for it and from no others.

A prefix is where a second spelling could hide.  An IPv4 address travels in sixteen octets and is
kept in four, so twelve octets are dropped; they are host octets of every prefix of the family, and
host bits are looked at before the octets are dropped (`Prefix.ofOctets_eq_ok_iff`).
-/

set_option autoImplicit false

namespace Rpki

open Transfer

namespace Roa

/-- A ROA that has a transfer form from which it can be read. -/
structure IsTransferable (r : Roa) : Prop where
  wellFormed : r.WellFormed
  expiresNanos : r.expires.nanos = 0
  path_lt : r.path.utf8ByteSize < 2 ^ 64
  prefixes_lt : r.prefixes.length < 2 ^ 64
  ski_lt : r.ski.utf8ByteSize < 2 ^ 64
  aki_lt : r.aki.utf8ByteSize < 2 ^ 64
  aia_lt : (r.aia.getD "").utf8ByteSize < 2 ^ 64

variable {s rest : Octets}

/-! ## Prefixes -/

/-- The fields of a prefix in the order in which they are taken. -/
theorem writePrefix_append (p : Prefix) (rest : Octets) :
    writePrefix p ++ rest =
      Writer.uint16 p.family.number ++ (Writer.uint8 p.length ++ (Writer.uint8 p.maxLength ++
        ((Prefix.widened p.address).2.val ++ rest))) := by
  simp only [writePrefix, List.append_assoc]

/-- **A prefix that keeps the rules is read exactly from its octets**, and no other is read. -/
theorem readPrefix_eq_ok_iff {p : Prefix} :
    readPrefix s = (.ok p, rest) ↔ p.isValid = true ∧ s = writePrefix p ++ rest := by
  rw [Prefix.isValid_iff]
  simp only [readPrefix, Reader.bind_eq_ok_iff, Reader.uint16_eq_ok_iff]
  refine ⟨fun h ↦ ?_, fun h ↦ ?_⟩
  · obtain ⟨number, _, rfl, h⟩ := h
    cases hnumber : AddressFamily.ofNumber? number with
    | none =>
      rw [hnumber] at h
      exact absurd h Reader.fail_ne_ok
    | some family =>
      rw [hnumber] at h
      obtain rfl := AddressFamily.ofNumber?_eq_some_iff.mp hnumber
      simp only [Reader.bind_eq_ok_iff, Reader.uint8_eq_ok_iff, Reader.fixed_eq_ok_iff] at h
      obtain ⟨length, _, rfl, maxLength, _, rfl, octets, _, rfl, h⟩ := h
      cases hmade : Prefix.ofOctets family octets length (some maxLength) with
      | error e =>
        rw [hmade] at h
        exact absurd h Reader.fail_ne_ok
      | ok q =>
        rw [hmade] at h
        obtain ⟨rfl, rfl⟩ := Reader.pure_eq_ok_iff.mp h
        obtain ⟨hq, hwiden, rfl, hmax⟩ := Prefix.ofOctets_eq_ok_iff.mp hmade
        rw [Option.getD_some] at hmax
        have hfamily := hq.family_eq
        rw [hwiden] at hfamily
        refine ⟨hq, ?_⟩
        rw [writePrefix_append, hwiden, ← hfamily, hmax]
  · obtain ⟨hp, rfl⟩ := h
    refine ⟨p.family.number, _, writePrefix_append p rest, ?_⟩
    rw [AddressFamily.ofNumber?_eq_some_iff.mpr rfl]
    simp only [Reader.bind_eq_ok_iff, Reader.uint8_eq_ok_iff, Reader.fixed_eq_ok_iff]
    refine ⟨p.length, _, rfl, p.maxLength, _, rfl, (Prefix.widened p.address).2, rest, rfl, ?_⟩
    have hwiden : Prefix.widened p.address = (p.family, (Prefix.widened p.address).2) := by
      rw [← hp.family_eq]
    rw [Prefix.ofOctets_eq_ok_iff.mpr ⟨hp, hwiden, rfl, rfl⟩]
    exact Reader.pure_eq_ok_iff.mpr ⟨rfl, rfl⟩

theorem length_writePrefix (p : Prefix) : (writePrefix p).length = prefixOctets := by
  have hnumber : (Writer.uint16 p.family.number).length = 2 := Octets.length_ofLittleEndian 2 _
  rw [writePrefix, List.length_append, List.length_append, List.length_append, hnumber,
    (Prefix.widened p.address).2.property]
  rfl

theorem length_flatMap_writePrefix (prefixes : List Prefix) :
    (prefixes.flatMap writePrefix).length = prefixes.length * prefixOctets := by
  induction prefixes with
  | nil => simp
  | cons p prefixes ih =>
    rw [List.flatMap_cons, List.length_append, length_writePrefix, ih, List.length_cons,
      Nat.succ_mul, Nat.add_comm]

/-! ## The whole form -/

/-- The fields in the order in which they are taken. -/
theorem toTransfer_eq (r : Roa) :
    r.toTransfer =
      Writer.string r.path ++ (Writer.uint32 r.asId ++ (Writer.time r.expires ++
        (Writer.length r.prefixes.length ++ (r.prefixes.flatMap writePrefix ++
          (Writer.optionalString r.aia ++ (Writer.string r.aki ++
            (Writer.string r.ski ++ []))))))) := by
  simp only [toTransfer, List.append_assoc, List.append_nil]

theorem read_eq_ok_iff {r : Roa} :
    read s = (.ok r, rest) ↔ r.IsTransferable ∧ s = r.toTransfer ∧ rest = [] := by
  simp only [read, Reader.bind_eq_ok_iff, Reader.string_eq_ok_iff, Reader.uint32_eq_ok_iff,
    Reader.time_eq_ok_iff, Reader.count_eq_ok_iff, Reader.items_eq_ok_iff readPrefix_eq_ok_iff,
    Reader.optionalString_eq_ok_iff, Reader.finish_eq_ok_iff]
  refine ⟨fun h ↦ ?_, fun h ↦ ?_⟩
  · obtain ⟨path, _, ⟨hpath, rfl⟩, asId, _, rfl, expires, _, ⟨hexpires, rfl⟩, _, _,
        ⟨hcount, -, rfl⟩, prefixes, _, ⟨rfl, -, rfl⟩, aia, _, ⟨-, haia, rfl⟩, aki, _, ⟨haki, rfl⟩,
        ski, _, ⟨hski, rfl⟩, _, _, ⟨rfl, rfl⟩, h⟩ := h
    cases hcheck : check ⟨path, asId, prefixes, ski, aki, aia, expires⟩ with
    | error rule =>
      rw [hcheck] at h
      exact absurd h Reader.fail_ne_ok
    | ok u =>
      rw [hcheck] at h
      obtain ⟨rfl, rfl⟩ := Reader.pure_eq_ok_iff.mp h
      refine ⟨?_, (toTransfer_eq ⟨path, asId, prefixes, ski, aki, aia, expires⟩).symm, rfl⟩
      exact ⟨(check_eq_ok_iff _).mp hcheck, hexpires, hpath, hcount, hski, haki, haia⟩
  · obtain ⟨hr, rfl, rfl⟩ := h
    have hrules := hr.wellFormed
    have hcount (t : Octets) :
        r.prefixes.length * prefixOctets ≤ (r.prefixes.flatMap writePrefix ++ t).length := by
      rw [List.length_append, length_flatMap_writePrefix]
      exact Nat.le_add_right _ _
    rw [toTransfer_eq]
    refine ⟨r.path, _, ⟨hr.path_lt, rfl⟩, r.asId, _, rfl, r.expires, _, ⟨hr.expiresNanos, rfl⟩,
      r.prefixes.length, _, ⟨hr.prefixes_lt, hcount _, rfl⟩,
      r.prefixes, _, ⟨rfl, hrules.isValid_of_mem, rfl⟩,
      r.aia, _, ⟨hrules.aia_ne, hr.aia_lt, rfl⟩, r.aki, _, ⟨hr.aki_lt, rfl⟩,
      r.ski, _, ⟨hr.ski_lt, rfl⟩, (), [], ⟨rfl, rfl⟩, ?_⟩
    rw [(check_eq_ok_iff r).mpr hrules]
    exact Reader.pure_eq_ok_iff.mpr ⟨rfl, rfl⟩

/-- **A ROA is read exactly from its transfer form.** -/
theorem ofTransfer_eq_ok_iff {data : Octets} {r : Roa} :
    ofTransfer data = .ok r ↔ r.IsTransferable ∧ r.toTransfer = data := by
  rw [ofTransfer, Reader.run_eq_ok_iff]
  simp only [read_eq_ok_iff]
  refine ⟨fun h ↦ ?_, fun h ↦ ?_⟩
  · obtain ⟨_, hr, hdata, -⟩ := h
    exact ⟨hr, hdata.symm⟩
  · obtain ⟨hr, hdata⟩ := h
    exact ⟨[], hr, hdata.symm, rfl⟩

/-- **The transfer form of ROAs is canonical.**  What is read from some octets are the ROAs whose
prefixes are made again of their own parts and that keep the rules for key identifiers, location
and time of expiry, and the octets are the ones that are written for them.  All lengths have to fit
into 64 bits.  For a prefix to be made again of its parts means that the address is of its family,
that the lengths are in order and within the family, and that the bits behind the prefix are
zero. -/
theorem ofTransfer_iff_toTransfer {data : Octets} {r : Roa} :
    (ofTransfer data = .ok r ↔
      r.toTransfer = data ∧
        (∀ p ∈ r.prefixes, Prefix.ofAddress p.address p.length (some p.maxLength) = .ok p) ∧
        r.aki ≠ "" ∧ r.ski ≠ "" ∧ r.aia ≠ some "" ∧ r.expires.nanos = 0 ∧
        r.prefixes.length < 2 ^ 64 ∧ r.path.utf8ByteSize < 2 ^ 64 ∧ r.aki.utf8ByteSize < 2 ^ 64 ∧
        r.ski.utf8ByteSize < 2 ^ 64 ∧ (r.aia.getD "").utf8ByteSize < 2 ^ 64) ∧
      ∀ p : Prefix, Prefix.ofAddress p.address p.length (some p.maxLength) = .ok p ↔
        (Prefix.widened p.address).1 = p.family ∧ p.length ≤ p.maxLength ∧
          p.maxLength ≤ p.family.width ∧
          2 ^ (128 - p.length.toNat) ∣ (Prefix.widened p.address).2.val.bigEndian := by
  refine ⟨?_, fun p ↦ Prefix.ofAddress_eq_ok_iff.trans Prefix.wellFormed_iff⟩
  have hvalid (p : Prefix) : p.isValid = true ↔
      Prefix.ofAddress p.address p.length (some p.maxLength) = .ok p :=
    Prefix.isValid_iff.trans Prefix.ofAddress_eq_ok_iff.symm
  rw [ofTransfer_eq_ok_iff]
  refine ⟨fun h ↦ ?_, fun h ↦ ?_⟩
  · obtain ⟨hr, rfl⟩ := h
    have hrules := hr.wellFormed
    exact ⟨rfl, fun p hp ↦ (hvalid p).mp (hrules.isValid_of_mem p hp), hrules.aki_ne,
      hrules.ski_ne, hrules.aia_ne, hr.expiresNanos, hr.prefixes_lt, hr.path_lt, hr.aki_lt,
      hr.ski_lt, hr.aia_lt⟩
  · obtain ⟨rfl, hprefixes, haki, hski, haia, hexpires, hcount, hpath, hakilt, hskilt, haialt⟩ := h
    have hrules : r.WellFormed :=
      ⟨fun p hp ↦ (hvalid p).mpr (hprefixes p hp), hski, haki, haia⟩
    exact ⟨⟨hrules, hexpires, hpath, hcount, hskilt, hakilt, haialt⟩, rfl⟩

end Roa

end Rpki
