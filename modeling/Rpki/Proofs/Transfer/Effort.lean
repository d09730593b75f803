import Rpki.Proofs.Machine.Reader
import Rpki.Proofs.Transfer.Delimited

/-!
# No number of items is taken on trust

A list in the transfer form starts with the number of its items.  Whoever reads it makes room for as
many of them and then takes them in a loop, so a number that nobody has looked at would be a way to
ask for all memory there is with a few octets.  `Reader.count` is what looks at it, and it says no
more and no less than that the octets behind the number are enough (`Reader.count_ok_iff`).

Making room and going round a loop have no part in what is read, so the readers do not mention them.
A `Metered` reader says what it did next to what it has read, and there is one for each decoder.
`Metered.Within` bounds what is done by a number, `Metered.Bounded` by the octets there are, and a
number of items that has been read is where the first becomes the second
(`Metered.bounded_count_bind`).
-/

set_option autoImplicit false

namespace Rpki

namespace Transfer

variable {α β : Type}

/-! ## Numbers of items -/

namespace Reader

/-- The reader fails for want of octets only. -/
def FailsCut (r : Reader α) : Prop := ∀ s, (∃ a rest, r s = (.ok a, rest)) ∨ IsCut (r s)

theorem failsCut_pure (a : α) : FailsCut (pure a : Reader α) := fun s ↦ .inl ⟨a, s, rfl⟩

theorem failsCut_bind {r : Reader α} {next : α → Reader β} (hr : FailsCut r)
    (hnext : ∀ a, FailsCut (next a)) : FailsCut (r >>= next) := by
  intro s
  obtain ⟨a, rest, hok⟩ | hcut := hr s
  · rw [bind_of_ok hok]
    exact hnext a rest
  · exact .inr (isCut_bind hcut)

theorem failsCut_fixed (n : Nat) : FailsCut (fixed n) := by
  intro s
  rw [fixed]
  cases FixedOctets.take? n s with
  | some p => exact .inl ⟨p.1, p.2, rfl⟩
  | none => exact .inr ⟨_, rfl, rfl⟩

theorem failsCut_expect (n : Nat) : FailsCut (expect n) := by
  intro s
  rw [expect]
  split
  · exact .inl ⟨(), s, rfl⟩
  · exact .inr ⟨_, rfl, rfl⟩

theorem failsCut_uint64 : FailsCut uint64 :=
  failsCut_bind (failsCut_bind (failsCut_fixed 8) fun _ ↦ failsCut_pure _) fun _ ↦ failsCut_pure _

/-- A number of items that is refused is one for which there are too few octets. -/
theorem failsCut_count (itemLength : Nat) : FailsCut (count itemLength) :=
  failsCut_bind failsCut_uint64 fun n ↦
    failsCut_bind (failsCut_expect _) fun _ ↦ failsCut_pure n.toNat

/-- **A number of items is accepted exactly if there are eight octets that spell it**, and behind
them enough octets for as many items. -/
theorem count_ok_iff {itemLength n : Nat} {s rest : Octets} :
    count itemLength s = (.ok n, rest) ↔
      8 ≤ s.length ∧ Octets.littleEndian (s.take 8) = n ∧ rest = s.drop 8 ∧
        n * itemLength ≤ rest.length := by
  rw [count_eq_ok_iff]
  constructor
  · rintro ⟨hlt, hle, rfl⟩
    have hnat : (UInt64.ofNat n).toNat = n := UInt64.toNat_ofNat_of_lt' hlt
    have hlength : (Writer.length n).length = 8 := Octets.length_ofLittleEndian 8 _
    rw [List.take_left' hlength, List.drop_left' hlength, List.length_append, hlength,
      Writer.length, Writer.uint64, hnat, Octets.littleEndian_ofLittleEndian hlt]
    exact ⟨Nat.le_add_right 8 _, rfl, rfl, hle⟩
  · rintro ⟨h, rfl, rfl, hle⟩
    have htake : (s.take 8).length = 8 := List.length_take_of_le h
    have hlt : Octets.littleEndian (s.take 8) < 256 ^ 8 := by
      have hlt := Octets.littleEndian_lt (s.take 8)
      rwa [htake] at hlt
    have hoctets : Octets.ofLittleEndian 8 (Octets.littleEndian (s.take 8)) = s.take 8 := by
      have hoctets := Octets.ofLittleEndian_littleEndian (s.take 8)
      rwa [htake] at hoctets
    have hnat : (UInt64.ofNat (Octets.littleEndian (s.take 8))).toNat =
        Octets.littleEndian (s.take 8) := UInt64.toNat_ofNat_of_lt' hlt
    refine ⟨hlt, hle, ?_⟩
    rw [Writer.length, Writer.uint64, hnat, hoctets, List.take_append_drop]

end Reader

/-! ## Metered readers -/

/-- What a reader does for lists. -/
structure Effort where
  /-- The number of items that room is made for. -/
  reserved : Nat
  /-- The number of items that are begun. -/
  rounds : Nat
deriving DecidableEq

namespace Effort

instance : Add Effort := ⟨fun a b ↦ ⟨a.reserved + b.reserved, a.rounds + b.rounds⟩⟩

instance : Zero Effort := ⟨⟨0, 0⟩⟩

instance : LE Effort := ⟨fun a b ↦ a.reserved ≤ b.reserved ∧ a.rounds ≤ b.rounds⟩

theorem zero_add (a : Effort) : 0 + a = a :=
  congrArg₂ Effort.mk (Nat.zero_add a.reserved) (Nat.zero_add a.rounds)

theorem zero_le (a : Effort) : 0 ≤ a := ⟨Nat.zero_le _, Nat.zero_le _⟩

theorem le_trans {a b c : Effort} (h : a ≤ b) (h' : b ≤ c) : a ≤ c :=
  ⟨Nat.le_trans h.1 h'.1, Nat.le_trans h.2 h'.2⟩

theorem le_add_right {a b : Effort} (c : Effort) (h : a ≤ b) : a ≤ b + c :=
  ⟨Nat.le_add_right_of_le h.1, Nat.le_add_right_of_le h.2⟩

theorem add_le_add {a b c d : Effort} (h : a ≤ b) (h' : c ≤ d) : a + c ≤ b + d :=
  ⟨Nat.add_le_add h.1 h'.1, Nat.add_le_add h.2 h'.2⟩

end Effort

/-- A reader that also says what it did. -/
def Metered (α : Type) := Octets → (Except TransferError α × Octets) × Effort

namespace Metered

instance : Monad Metered where
  pure a := fun s ↦ ((.ok a, s), 0)
  bind m next := fun s ↦
    match m s with
    | ((.ok a, rest), e) => ((next a rest).1, e + (next a rest).2)
    | ((.error error, rest), e) => ((.error error, rest), e)

/-- A reader that does nothing for lists. -/
instance : MonadLift Reader Metered := ⟨fun r s ↦ (r s, 0)⟩

/-- Does something and takes nothing. -/
def act (e : Effort) : Metered Unit := fun s ↦ ((.ok (), s), e)

/-- Makes room for `n` items. -/
def reserve (n : Nat) : Metered Unit := act ⟨n, 0⟩

/-- Takes `n` items, one after the other. -/
def items (item : Reader α) : Nat → Metered (List α)
  | 0 => return []
  | n + 1 => do
    act ⟨0, 1⟩
    let a ← item
    let as ← items item n
    return a :: as

/-- What a metered reader has read, whatever it leaves. -/
def value (m : Metered α) (s : Octets) : Except TransferError α := (m s).1.1

/-- What a metered reader did. -/
def effort (m : Metered α) (s : Octets) : Effort := (m s).2

/-! ### Bounds -/

/-- It reads what the reader does, and does no more for it than `e`. -/
structure Within (e : Effort) (m : Metered α) (r : Reader α) : Prop where
  eq : ∀ s, (m s).1 = r s
  le : ∀ s, m.effort s ≤ e

/-- It reads what the reader does, and there are octets for as many items as it makes room for or
begins, if each of them has `itemLength`. -/
structure Bounded (itemLength : Nat) (m : Metered α) (r : Reader α) : Prop where
  eq : ∀ s, (m s).1 = r s
  le : ∀ s, ∃ n, n * itemLength ≤ s.length ∧ m.effort s ≤ ⟨n, n⟩

variable {itemLength : Nat} {e e' : Effort} {m : Metered α} {r : Reader α} {next : α → Metered β}
  {next' : α → Reader β}

/-- Two readers one after the other: either the first one fails and that is all, or what they did
adds up. -/
theorem bind_cases {s : Octets} (h : (m s).1 = r s) (next : α → Metered β) :
    (∃ error rest, r s = (.error error, rest) ∧
        (m >>= next) s = ((.error error, rest), m.effort s)) ∨
      ∃ a rest, r s = (.ok a, rest) ∧
        (m >>= next) s = ((next a rest).1, m.effort s + (next a rest).2) := by
  obtain ⟨result, rest, hr⟩ : ∃ result rest, r s = (result, rest) := ⟨_, _, rfl⟩
  have hm : m s = ((result, rest), m.effort s) := Prod.ext (h.trans hr) rfl
  have hbind : (m >>= next) s =
      match m s with
      | ((.ok a, rest), e) => ((next a rest).1, e + (next a rest).2)
      | ((.error error, rest), e) => ((.error error, rest), e) := rfl
  rw [hbind, hm]
  cases result with
  | error error => exact .inl ⟨error, rest, hr, rfl⟩
  | ok a => exact .inr ⟨a, rest, hr, rfl⟩

theorem bind_eq (h : ∀ s, (m s).1 = r s) (hnext : ∀ a s, (next a s).1 = next' a s) (s : Octets) :
    ((m >>= next) s).1 = (r >>= next') s := by
  obtain ⟨error, rest, hr, hbind⟩ | ⟨a, rest, hr, hbind⟩ := bind_cases (h s) next
  · rw [hbind, Reader.bind_of_error hr]
  · rw [hbind, Reader.bind_of_ok hr]
    exact hnext a rest

/-- What is done one after the other adds up, if the second one comes to its turn. -/
theorem effort_bind_le {s : Octets} (h : (m s).1 = r s) (hm : m.effort s ≤ e)
    (hnext : ∀ a rest, r s = (.ok a, rest) → (next a).effort rest ≤ e') :
    (m >>= next).effort s ≤ e + e' := by
  rw [effort]
  obtain ⟨error, rest, -, hbind⟩ | ⟨a, rest, hr, hbind⟩ := bind_cases h next
  · rw [hbind]
    exact Effort.le_add_right e' hm
  · rw [hbind]
    exact Effort.add_le_add hm (hnext a rest hr)

theorem within_lift (r : Reader α) : Within 0 (liftM r) r :=
  ⟨fun _ ↦ rfl, fun _ ↦ Effort.zero_le 0⟩

theorem within_pure (a : α) : Within 0 (pure a) (pure a) :=
  ⟨fun _ ↦ rfl, fun _ ↦ Effort.zero_le 0⟩

theorem within_bind (h : Within e m r) (hnext : ∀ a, Within e' (next a) (next' a)) :
    Within (e + e') (m >>= next) (r >>= next') :=
  ⟨bind_eq h.eq fun a ↦ (hnext a).eq,
    fun s ↦ effort_bind_le (h.eq s) (h.le s) fun a rest _ ↦ (hnext a).le rest⟩

theorem within_lift_bind (hnext : ∀ a, Within e (next a) (next' a)) :
    Within e (liftM r >>= next) (r >>= next') := by
  have hbind := within_bind (within_lift r) hnext
  rwa [Effort.zero_add] at hbind

/-- What is done without taking anything comes on top. -/
theorem within_act_bind (h : Within e' m r) : Within (e + e') (do act e; m) r := by
  have hact : Within e (act e) (pure ()) := ⟨fun _ ↦ rfl, fun _ ↦ ⟨Nat.le_refl _, Nat.le_refl _⟩⟩
  exact within_bind hact fun _ ↦ h

theorem Within.mono (h : Within e m r) (hle : e ≤ e') : Within e' m r :=
  ⟨h.eq, fun s ↦ Effort.le_trans (h.le s) hle⟩

/-- No more items are begun than are asked for. -/
theorem within_items (item : Reader α) (n : Nat) :
    Within ⟨0, n⟩ (items item n) (Reader.items item n) := by
  induction n with
  | zero => exact within_pure []
  | succ n ih =>
    have hstep := within_act_bind (e := ⟨0, 1⟩) (within_lift_bind (r := item) fun a ↦
      within_bind ih fun as ↦ within_pure (a :: as))
    have hrounds : 1 + (n + 0) ≤ n + 1 := by omega
    exact hstep.mono ⟨Nat.le_refl 0, hrounds⟩

/-- For as many items as are taken room may be made before. -/
theorem within_reserve_items (item : Reader α) (n : Nat) :
    Within ⟨n, n⟩ (do reserve n; items item n) (Reader.items item n) := by
  have hrounds : 0 + n ≤ n := Nat.le_of_eq (Nat.zero_add n)
  exact (within_act_bind (within_items item n)).mono ⟨Nat.le_refl n, hrounds⟩

theorem within_reserve_items_bind (item : Reader α) (n : Nat) {next : List α → Metered β}
    {next' : List α → Reader β} (hnext : ∀ as, Within 0 (next as) (next' as)) :
    Within ⟨n, n⟩ (do reserve n; let as ← items item n; next as)
      (do let as ← Reader.items item n; next' as) := by
  have hrounds : 0 + (n + 0) ≤ n := by omega
  exact (within_act_bind (within_bind (within_items item n) hnext)).mono
    ⟨Nat.le_refl n, hrounds⟩

/-- What comes behind a list does nothing for lists. -/
theorem bounded_bind (h : Bounded itemLength m r) (hnext : ∀ a, Within 0 (next a) (next' a)) :
    Bounded itemLength (m >>= next) (r >>= next') where
  eq := bind_eq h.eq fun a ↦ (hnext a).eq
  le s := by
    obtain ⟨n, hn, hle⟩ := h.le s
    exact ⟨n, hn, effort_bind_le (h.eq s) hle fun a rest _ ↦ (hnext a).le rest⟩

/-- What comes in front of a list does nothing for lists, so what is done is what is done behind it.
-/
theorem effort_lift_bind (r : Reader α) (next : α → Metered β) (s : Octets) :
    effort (liftM r >>= next) s =
      match r s with
      | (.ok a, rest) => (next a).effort rest
      | (.error _, _) => 0 := by
  rw [effort]
  obtain ⟨error, rest, hr, hbind⟩ | ⟨a, rest, hr, hbind⟩ := bind_cases ((within_lift r).eq s) next
  · rw [hbind, hr]
    rfl
  · rw [hbind, hr]
    exact Effort.zero_add _

theorem bounded_lift_bind_of (heq : ∀ a s, (next a s).1 = next' a s)
    (hnext : ∀ s a rest, r s = (.ok a, rest) →
      ∃ n, n * itemLength ≤ s.length ∧ (next a).effort rest ≤ ⟨n, n⟩) :
    Bounded itemLength (liftM r >>= next) (r >>= next') where
  eq := bind_eq (within_lift r).eq heq
  le s := by
    rw [effort_lift_bind]
    split
    · next a rest hr => exact hnext s a rest hr
    · exact ⟨0, by omega, Effort.zero_le _⟩

/-- **What is done for a list is bounded by the octets**, if it is bounded by the number of its
items.  That number has been compared with the octets behind it. -/
theorem bounded_count_bind {next : Nat → Metered α} {next' : Nat → Reader α}
    (h : ∀ n, Within ⟨n, n⟩ (next n) (next' n)) :
    Bounded itemLength (do let n ← Reader.count itemLength; next n)
      (do let n ← Reader.count itemLength; next' n) := by
  refine bounded_lift_bind_of (fun n ↦ (h n).eq) fun s n rest hr ↦ ?_
  obtain ⟨-, -, rfl, hle⟩ := Reader.count_ok_iff.mp hr
  rw [List.length_drop] at hle
  exact ⟨n, by omega, (h n).le _⟩

/-- What is in front of a list leaves no more octets than there were. -/
theorem bounded_lift_bind (hrest : ∀ s, (r s).2.length ≤ s.length)
    (hnext : ∀ a, Bounded itemLength (next a) (next' a)) :
    Bounded itemLength (liftM r >>= next) (r >>= next') := by
  refine bounded_lift_bind_of (fun a ↦ (hnext a).eq) fun s a rest hr ↦ ?_
  obtain ⟨n, hn, hle⟩ := (hnext a).le rest
  have hlength := hrest s
  rw [hr] at hlength
  exact ⟨n, Nat.le_trans hn hlength, hle⟩

end Metered

end Transfer

open Transfer

/-! ## Manifests -/

namespace Manifest

/-- Takes all entries, making room for them before.  A manifest that is out of date has none. -/
def meteredEntries (stale : Bool) : Metered (List FileEntry) := do
  let count ← Reader.count entryLength
  if stale ∧ 0 < count then Reader.fail (.badValue .filesInStaleManifest)
  else
    Metered.reserve count
    Metered.items readEntry count

/-- Takes a manifest, which has to be all there is. -/
def metered : Metered Manifest := do
  let stale ← Reader.flag
  let path ← Reader.string
  let files ← meteredEntries stale
  let aia ← Reader.optionalString
  let aki ← Reader.string
  let ski ← Reader.string
  let number ← Reader.fixed 20
  let window ← readWindow
  Reader.finish
  let manifest : Manifest := ⟨path, ⟨number⟩, window, stale, files, ski, aki, aia⟩
  match manifest.check with
  | .ok () => return manifest
  | .error rule => Reader.fail (.badValue rule)

open Metered

theorem bounded_meteredEntries (stale : Bool) :
    Bounded entryLength (meteredEntries stale) (readEntries stale) := by
  refine bounded_count_bind fun count ↦ ?_
  split
  · exact (within_lift _).mono (Effort.zero_le _)
  · exact within_reserve_items readEntry count

theorem bounded_metered : Bounded entryLength metered read := by
  refine bounded_lift_bind Machine.reads_flag.le fun stale ↦ ?_
  refine bounded_lift_bind Machine.reads_string.le fun path ↦ ?_
  refine bounded_bind (bounded_meteredEntries stale) fun files ↦ ?_
  refine within_lift_bind fun aia ↦ ?_
  refine within_lift_bind fun aki ↦ ?_
  refine within_lift_bind fun ski ↦ ?_
  refine within_lift_bind fun number ↦ ?_
  refine within_lift_bind fun window ↦ ?_
  refine within_lift_bind fun _ ↦ ?_
  dsimp only
  cases Manifest.check ⟨path, ⟨number⟩, window, stale, files, ski, aki, aia⟩ with
  | ok u => exact within_pure _
  | error rule => exact within_lift _

end Manifest

/-! ## Route origin authorisations -/

namespace Roa

/-- Takes a ROA, which has to be all there is. -/
def metered : Metered Roa := do
  let path ← Reader.string
  let asId ← Reader.uint32
  let expires ← Reader.time
  let count ← Reader.count prefixOctets
  Metered.reserve count
  let prefixes ← Metered.items readPrefix count
  let aia ← Reader.optionalString
  let aki ← Reader.string
  let ski ← Reader.string
  Reader.finish
  let roa : Roa := ⟨path, asId, prefixes, ski, aki, aia, expires⟩
  match roa.check with
  | .ok () => return roa
  | .error rule => Reader.fail (.badValue rule)

open Metered

theorem bounded_metered : Bounded prefixOctets metered read := by
  refine bounded_lift_bind Machine.reads_string.le fun path ↦ ?_
  refine bounded_lift_bind (Machine.reads_number 4 UInt32.ofNat).le fun asId ↦ ?_
  refine bounded_lift_bind Machine.reads_time.le fun expires ↦ ?_
  refine bounded_count_bind fun count ↦ ?_
  refine within_reserve_items_bind readPrefix count fun prefixes ↦ ?_
  refine within_lift_bind fun aia ↦ ?_
  refine within_lift_bind fun aki ↦ ?_
  refine within_lift_bind fun ski ↦ ?_
  refine within_lift_bind fun _ ↦ ?_
  dsimp only
  cases Roa.check ⟨path, asId, prefixes, ski, aki, aia, expires⟩ with
  | ok u => exact within_pure _
  | error rule => exact within_lift _

end Roa

/-! ## What a number of items can do -/

/-- **A number of items cannot be forged.**  It is accepted exactly if there are eight octets that
spell it and octets for as many items behind them, and otherwise the octets are too few.  A machine
that multiplies in 64 bits and notices if that is not enough comes to the same answer.  So neither
decoder makes room for more items, or begins more, than could be in the octets. -/
theorem count_cannot_be_forged :
    (∀ itemLength s n rest, Reader.count itemLength s = (.ok n, rest) ↔
        8 ≤ s.length ∧ Octets.littleEndian (s.take 8) = n ∧ rest = s.drop 8 ∧
          n * itemLength ≤ rest.length) ∧
      (∀ itemLength s, (∃ n rest, Reader.count itemLength s = (.ok n, rest)) ∨
        ∃ e rest, Reader.count itemLength s = (.error e, rest) ∧ e.isTruncated = true) ∧
      (∀ itemLength s, 0 < itemLength → s.length < 2 ^ 63 →
        Machine.Reader.count itemLength s = some (Reader.count itemLength s)) ∧
      (∀ data, Manifest.metered.value data = Manifest.ofTransfer data ∧
        (Manifest.metered.effort data).reserved ≤ data.length / 40 ∧
        (Manifest.metered.effort data).rounds ≤ data.length / 40) ∧
      ∀ data, Roa.metered.value data = Roa.ofTransfer data ∧
        (Roa.metered.effort data).reserved ≤ data.length / 20 ∧
        (Roa.metered.effort data).rounds ≤ data.length / 20 := by
  refine ⟨fun _ _ _ _ ↦ Reader.count_ok_iff, fun itemLength s ↦ ?_,
    fun _ s h hlt ↦ (Machine.reads_count h).eq s hlt, fun data ↦ ?_, fun data ↦ ?_⟩
  · obtain hok | ⟨e, he, htruncated⟩ := Reader.failsCut_count itemLength s
    · exact .inl hok
    · exact .inr ⟨e, (Reader.count itemLength s).2, Prod.ext he rfl, htruncated⟩
  · obtain ⟨n, hn, hle⟩ := Manifest.bounded_metered.le data
    have hdiv : n ≤ data.length / 40 := (Nat.le_div_iff_mul_le (by decide)).mpr hn
    exact ⟨congrArg Prod.fst (Manifest.bounded_metered.eq data), Nat.le_trans hle.1 hdiv,
      Nat.le_trans hle.2 hdiv⟩
  · obtain ⟨n, hn, hle⟩ := Roa.bounded_metered.le data
    have hdiv : n ≤ data.length / 20 := (Nat.le_div_iff_mul_le (by decide)).mpr hn
    exact ⟨congrArg Prod.fst (Roa.bounded_metered.eq data), Nat.le_trans hle.1 hdiv,
      Nat.le_trans hle.2 hdiv⟩

/-- A number of items of which forty times as many would be none in 64 bits, and a manifest with it
in the place of the number of its files. -/
theorem count_cannot_be_forged_of_product_zero :
    let forged : Octets := [0, 0, 0, 0, 0, 0, 0, 0x20]
    let manifest : Octets := List.replicate 12 0 ++ forged
    let error : TransferError := .truncated 18446744073709551615 0
    Octets.littleEndian forged * 40 % 2 ^ 64 = 0 ∧ (0 < 40 ∧ forged.length < 2 ^ 63) ∧
      Machine.Reader.count 40 forged = some (.error error, []) ∧
      Manifest.metered.value manifest = .error error ∧
      (Manifest.metered.effort manifest).reserved ≤ 20 / 40 := by
  intro forged manifest error
  have hlength : forged.length < 2 ^ 63 := by decide
  have hcount : Reader.count 40 forged = (.error error, []) := by decide +kernel +zetaReduce
  have hmanifest : Manifest.ofTransfer manifest = .error error := by decide +kernel +zetaReduce
  obtain ⟨-, -, hmachine, hmanifests, -⟩ := count_cannot_be_forged
  obtain ⟨hvalue, hreserved, -⟩ := hmanifests manifest
  exact ⟨by decide +kernel +zetaReduce, ⟨by decide, hlength⟩,
    (hmachine 40 forged (by decide) hlength).trans (congrArg some hcount),
    hvalue.trans hmanifest, hreserved⟩

end Rpki
