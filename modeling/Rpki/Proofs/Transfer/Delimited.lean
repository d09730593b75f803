import Rpki.Manifest.Transfer
import Rpki.Proofs.Transfer.Reader
import Rpki.Roa.Transfer

/-!
# The transfer form says where it ends

Octets that have been read can be cut off or continued.  For the readers of single fields
`Reader.Delimits` says what comes of that: with more octets behind them they take the same octets
for the same value, and with less they either do that too or find the octets too few.  No other
error can come first, since what is left of a field in octets that were cut is either the whole
field or not looked at.

The number of items in a list is the one place where a reader looks further than it takes.  It asks
for enough octets for so many items, and so it may find cut octets too few although the number
itself is there.  This is still a lack of octets, and octets that are continued are never too few.

`Reader.Exhausts` is the same for readers of whole objects, which end with `Reader.finish`: cut
octets are too few, and continued ones are too many by as many as were put behind them.  Manifests
and ROAs are read in this way (`Transfer.self_delimiting`), so their forms can be told apart from
everything in front of them and behind them.
-/

set_option autoImplicit false

namespace Rpki

namespace Transfer

namespace Reader

variable {α β : Type}

/-- There were not enough octets. -/
def IsCut (result : Except TransferError α × Octets) : Prop :=
  ∃ e, result.1 = .error e ∧ e.isTruncated = true

/-- What the reader makes of octets depends on those it takes alone: not on what is put behind them,
and if any are cut off it goes on as before as long as there are enough. -/
def Delimits (r : Reader α) : Prop :=
  ∀ ⦃s a rest⦄, r s = (.ok a, rest) →
    ∃ front, s = front ++ rest ∧ (∀ t, r (s ++ t) = (.ok a, rest ++ t)) ∧
      ∀ p, p <+: s → IsCut (r p) ∨ ∃ rest', p = front ++ rest' ∧ r p = (.ok a, rest')

/-- Octets that have been read are all there is of an object: with some of them cut off there are
not enough, and what is put behind them is too much. -/
def Exhausts (r : Reader α) : Prop :=
  ∀ ⦃s a rest⦄, r s = (.ok a, rest) →
    (∀ p, p <+: s → p ≠ s → IsCut (r p)) ∧
      ∀ t, t ≠ [] → (r (s ++ t)).1 = .error (.trailingData t.length)

/-! ## Readers one after the other -/

theorem bind_of_ok {r : Reader α} {next : α → Reader β} {s mid : Octets} {a : α}
    (h : r s = (.ok a, mid)) : (r >>= next) s = next a mid := by
  rw [bind_apply, h]

theorem bind_of_error {r : Reader α} {next : α → Reader β} {s mid : Octets} {e : TransferError}
    (h : r s = (.error e, mid)) : (r >>= next) s = (.error e, mid) := by
  rw [bind_apply, h]

/-- What is too few octets for the first reader is too few for both. -/
theorem isCut_bind {r : Reader α} {next : α → Reader β} {s : Octets} (h : IsCut (r s)) :
    IsCut ((r >>= next) s) := by
  obtain ⟨e, he, htruncated⟩ := h
  have hr : r s = (.error e, (r s).2) := Prod.ext he rfl
  rw [bind_of_error hr]
  exact ⟨e, rfl, htruncated⟩

theorem delimits_pure (a : α) : Delimits (pure a : Reader α) := by
  intro s b rest h
  obtain ⟨rfl, rfl⟩ := pure_eq_ok_iff.mp h
  exact ⟨[], rfl, fun t ↦ rfl, fun p _ ↦ .inr ⟨p, rfl, rfl⟩⟩

theorem delimits_fail (e : TransferError) : Delimits (fail e : Reader α) :=
  fun _ _ _ h ↦ absurd h fail_ne_ok

theorem delimits_bind {r : Reader α} {next : α → Reader β} (hr : Delimits r)
    (hnext : ∀ a, Delimits (next a)) : Delimits (r >>= next) := by
  intro s b rest h
  obtain ⟨a, mid, hra, hnb⟩ := bind_eq_ok_iff.mp h
  obtain ⟨front, rfl, hlonger, hshorter⟩ := hr hra
  obtain ⟨front', rfl, hlonger', hshorter'⟩ := hnext a hnb
  refine ⟨front ++ front', (List.append_assoc _ _ _).symm, fun t ↦ ?_, fun p hp ↦ ?_⟩
  · rw [bind_of_ok (hlonger t), hlonger' t]
  · obtain hcut | ⟨mid', rfl, hra'⟩ := hshorter p hp
    · exact .inl (isCut_bind hcut)
    · rw [List.prefix_append_right_inj] at hp
      rw [bind_of_ok hra']
      obtain hcut | ⟨rest', rfl, hnb'⟩ := hshorter' mid' hp
      · exact .inl hcut
      · exact .inr ⟨rest', (List.append_assoc _ _ _).symm, hnb'⟩

theorem delimits_map {r : Reader α} (f : α → β) (hr : Delimits r) :
    Delimits (do return f (← r) : Reader β) :=
  delimits_bind hr fun a ↦ delimits_pure (f a)

theorem exhausts_bind {r : Reader α} {next : α → Reader β} (hr : Delimits r)
    (hnext : ∀ a, Exhausts (next a)) : Exhausts (r >>= next) := by
  intro s b rest h
  obtain ⟨a, mid, hra, hnb⟩ := bind_eq_ok_iff.mp h
  obtain ⟨front, rfl, hlonger, hshorter⟩ := hr hra
  obtain ⟨hcut, htrailing⟩ := hnext a hnb
  refine ⟨fun p hp hne ↦ ?_, fun t ht ↦ ?_⟩
  · obtain hcut' | ⟨mid', rfl, hra'⟩ := hshorter p hp
    · exact isCut_bind hcut'
    · rw [List.prefix_append_right_inj] at hp
      rw [bind_of_ok hra']
      exact hcut mid' hp fun heq ↦ hne (congrArg (front ++ ·) heq)
  · rw [bind_of_ok (hlonger t), htrailing t ht]

/-- Everything before the end of the octets has been taken, so nothing can be cut off. -/
theorem exhausts_finish (r : Reader α) : Exhausts (do finish; r) := by
  intro s a rest h
  obtain ⟨_, _, hfinish, -⟩ := bind_eq_ok_iff.mp h
  obtain ⟨rfl, -⟩ := finish_eq_ok_iff.mp hfinish
  refine ⟨fun p hp hne ↦ absurd (List.prefix_nil.mp hp) hne, fun t ht ↦ ?_⟩
  have hmore : finish t = (.error (.trailingData t.length), t) := if_neg ht
  rw [List.nil_append, bind_of_error hmore]

/-- **Cut octets are too few and continued ones too many**, whatever the reader leaves. -/
theorem Exhausts.run {r : Reader α} (hr : Exhausts r) {d : Octets} {a : α} (h : r.run d = .ok a) :
    (∀ p, p <+: d → p ≠ d → ∃ e, r.run p = .error e ∧ e.isTruncated = true) ∧
      ∀ s, s ≠ [] → r.run (d ++ s) = .error (.trailingData s.length) := by
  obtain ⟨rest, h⟩ := run_eq_ok_iff.mp h
  exact hr h

/-! ## Fields -/

theorem delimits_fixed (n : Nat) : Delimits (fixed n) := by
  intro s o rest h
  obtain rfl := fixed_eq_ok_iff.mp h
  refine ⟨o.val, rfl, fun t ↦ fixed_eq_ok_iff.mpr (List.append_assoc _ _ _), fun p hp ↦ ?_⟩
  cases htake : FixedOctets.take? n p with
  | none =>
    refine .inl ⟨.truncated n p.length, ?_, rfl⟩
    rw [fixed, htake]
  | some taken =>
    obtain ⟨o', rest'⟩ := taken
    obtain rfl := FixedOctets.take?_eq_some_iff.mp htake
    obtain ⟨t, ht⟩ := hp
    rw [List.append_assoc] at ht
    have hsame : o'.val = o.val := List.append_inj_left ht (o'.property.trans o.property.symm)
    rw [hsame]
    exact .inr ⟨rest', rfl, fixed_eq_ok_iff.mpr rfl⟩

theorem delimits_number (width : Nat) : Delimits (number width) :=
  delimits_map _ (delimits_fixed width)

theorem delimits_uint8 : Delimits uint8 := delimits_map _ (delimits_number 1)

theorem delimits_uint16 : Delimits uint16 := delimits_map _ (delimits_number 2)

theorem delimits_uint32 : Delimits uint32 := delimits_map _ (delimits_number 4)

theorem delimits_uint64 : Delimits uint64 := delimits_map _ (delimits_number 8)

theorem delimits_int32 : Delimits int32 := delimits_map _ delimits_uint32

theorem delimits_int64 : Delimits int64 := delimits_map _ delimits_uint64

theorem delimits_flag : Delimits flag := by
  refine delimits_bind delimits_int32 fun n ↦ ?_
  split
  · exact delimits_pure false
  split
  · exact delimits_pure true
  · exact delimits_fail _

/-- Asking for octets without taking them is harmless: more octets are still enough, and less are
either enough or found too few. -/
theorem delimits_expect (n : Nat) : Delimits (expect n) := by
  intro s u rest h
  obtain ⟨hle, rfl⟩ := expect_eq_ok_iff.mp h
  refine ⟨[], rfl, fun t ↦ expect_eq_ok_iff.mpr ⟨?_, rfl⟩, fun p _ ↦ ?_⟩
  · rw [List.length_append]
    exact Nat.le_trans hle (Nat.le_add_right _ _)
  · by_cases hp : n ≤ p.length
    · exact .inr ⟨p, rfl, expect_eq_ok_iff.mpr ⟨hp, rfl⟩⟩
    · have hcut : expect n p = (.error (.truncated (min n (UInt64.size - 1)) p.length), p) :=
        if_neg hp
      rw [hcut]
      exact .inl ⟨_, rfl, rfl⟩

theorem delimits_count (itemLength : Nat) : Delimits (count itemLength) := by
  refine delimits_bind delimits_uint64 fun n ↦ ?_
  refine delimits_bind (delimits_expect _) fun _ ↦ ?_
  exact delimits_pure n.toNat

theorem delimits_string : Delimits string := by
  refine delimits_bind delimits_uint64 fun n ↦ ?_
  refine delimits_bind (delimits_fixed _) fun o ↦ ?_
  cases o.val.toString? with
  | some s => exact delimits_pure s
  | none => exact delimits_fail _

theorem delimits_optionalString : Delimits optionalString := delimits_map _ delimits_string

theorem delimits_time : Delimits time := by
  refine delimits_bind delimits_int64 fun seconds ↦ ?_
  cases Time.ofSeconds? seconds.toInt with
  | some t => exact delimits_pure t
  | none => exact delimits_fail _

theorem delimits_items {item : Reader α} (hitem : Delimits item) (n : Nat) :
    Delimits (items item n) := by
  induction n with
  | zero => exact delimits_pure []
  | succ n ih =>
    refine delimits_bind hitem fun a ↦ ?_
    refine delimits_bind ih fun as ↦ ?_
    exact delimits_pure (a :: as)

end Reader

end Transfer

open Transfer Reader

/-! ## Manifests -/

namespace Manifest

theorem delimits_readEntry : Delimits readEntry := by
  refine delimits_bind delimits_string fun file ↦ ?_
  split
  · exact delimits_map _ (delimits_fixed 32)
  · exact delimits_fail _

theorem delimits_readEntries (stale : Bool) : Delimits (readEntries stale) := by
  refine delimits_bind (delimits_count entryLength) fun count ↦ ?_
  split
  · exact delimits_fail _
  · exact delimits_items delimits_readEntry count

theorem delimits_readWindow : Delimits readWindow := by
  refine delimits_bind delimits_time fun thisUpdate ↦ ?_
  refine delimits_bind delimits_time fun nextUpdate ↦ ?_
  cases ValidityWindow.ofTimes thisUpdate nextUpdate with
  | ok w => exact delimits_pure w
  | error e => exact delimits_fail _

theorem exhausts_read : Exhausts read := by
  refine exhausts_bind delimits_flag fun stale ↦ ?_
  refine exhausts_bind delimits_string fun path ↦ ?_
  refine exhausts_bind (delimits_readEntries stale) fun files ↦ ?_
  refine exhausts_bind delimits_optionalString fun aia ↦ ?_
  refine exhausts_bind delimits_string fun aki ↦ ?_
  refine exhausts_bind delimits_string fun ski ↦ ?_
  refine exhausts_bind (delimits_fixed 20) fun number ↦ ?_
  refine exhausts_bind delimits_readWindow fun window ↦ ?_
  exact exhausts_finish _

end Manifest

/-! ## ROAs -/

namespace Roa

theorem delimits_readPrefix : Delimits readPrefix := by
  refine delimits_bind delimits_uint16 fun number ↦ ?_
  cases AddressFamily.ofNumber? number with
  | none => exact delimits_fail _
  | some family =>
    refine delimits_bind delimits_uint8 fun length ↦ ?_
    refine delimits_bind delimits_uint8 fun maxLength ↦ ?_
    refine delimits_bind (delimits_fixed 16) fun octets ↦ ?_
    cases Prefix.ofOctets family octets length (some maxLength) with
    | ok p => exact delimits_pure p
    | error e => exact delimits_fail _

theorem exhausts_read : Exhausts read := by
  refine exhausts_bind delimits_string fun path ↦ ?_
  refine exhausts_bind delimits_uint32 fun asId ↦ ?_
  refine exhausts_bind delimits_time fun expires ↦ ?_
  refine exhausts_bind (delimits_count prefixOctets) fun count ↦ ?_
  refine exhausts_bind (delimits_items delimits_readPrefix count) fun prefixes ↦ ?_
  refine exhausts_bind delimits_optionalString fun aia ↦ ?_
  refine exhausts_bind delimits_string fun aki ↦ ?_
  refine exhausts_bind delimits_string fun ski ↦ ?_
  exact exhausts_finish _

end Roa

/-! ## Both -/

/-- **The transfer forms of manifests and of ROAs say where they end.**  From octets that are read
none can be cut off without the rest being found too few, and whatever is put behind them is found
to be too much, by its length. -/
theorem Transfer.self_delimiting :
    (∀ d m, Manifest.ofTransfer d = .ok m →
      (∀ p, p <+: d → p ≠ d → ∃ e, Manifest.ofTransfer p = .error e ∧ e.isTruncated = true) ∧
        ∀ s, s ≠ [] → Manifest.ofTransfer (d ++ s) = .error (.trailingData s.length)) ∧
      ∀ d r, Roa.ofTransfer d = .ok r →
        (∀ p, p <+: d → p ≠ d → ∃ e, Roa.ofTransfer p = .error e ∧ e.isTruncated = true) ∧
          ∀ s, s ≠ [] → Roa.ofTransfer (d ++ s) = .error (.trailingData s.length) :=
  ⟨fun _ _ h ↦ Manifest.exhausts_read.run h, fun _ _ h ↦ Roa.exhausts_read.run h⟩

/-- A manifest that is cut in front of its last octet, and a ROA with another one behind it. -/
theorem Transfer.self_delimiting_one_file :
    let t : Time := ⟨1631880000, 0, by decide, by decide, by decide⟩
    let manifest : Manifest :=
      ⟨"a.mft", .ofNat 200, ⟨t, t⟩, false, [⟨"a.roa", List.replicate 32 0xAB, rfl⟩],
       "AB", "CD", none⟩
    let roa : Roa :=
      ⟨"a.roa", 65000, [⟨.ipv4, .v4 ⟨[10, 0, 0, 0], rfl⟩, 8, 24⟩], "AB", "CD", none, t⟩
    let d := manifest.toTransfer
    Manifest.ofTransfer d = .ok manifest ∧ d.dropLast <+: d ∧ d.dropLast ≠ d ∧
      (∃ e, Manifest.ofTransfer d.dropLast = .error e ∧ e.isTruncated = true) ∧
      Roa.ofTransfer roa.toTransfer = .ok roa ∧
      Roa.ofTransfer (roa.toTransfer ++ [0]) = .error (.trailingData 1) := by
  intro t manifest roa d
  have hmanifest : Manifest.ofTransfer d = .ok manifest := by decide +kernel +zetaReduce
  have hprefix : d.dropLast <+: d := List.dropLast_prefix d
  have hne : d.dropLast ≠ d := by decide +kernel +zetaReduce
  have hroa : Roa.ofTransfer roa.toTransfer = .ok roa := by decide +kernel +zetaReduce
  obtain ⟨hmanifests, hroas⟩ := Transfer.self_delimiting
  exact ⟨hmanifest, hprefix, hne, (hmanifests d manifest hmanifest).1 _ hprefix hne, hroa,
    (hroas _ roa hroa).2 [0] (by decide)⟩

end Rpki
