import Rpki.Proofs.Machine.Operation
import Rpki.Proofs.Transfer.Reader

/-!
# Reading the transfer form on a machine

Octets are split off the front of what there is left to read, and a machine that is to split off
more than there are stops.  So every reader first compares the number it needs with the number that
is left, and a number that comes from the octets themselves is compared in the same way.

A number of items is multiplied by the least length of an item before it is compared.  That product
may be too large for 64 bits, which is noticed and is an error like any other; and if it is not, and
there are as many octets, the number of items is no larger than theirs.

`Machine.Reads` is the relation to the reader that a reader stands for.  It is about less than 2⁶³
octets, which is more than an object in memory can have.  A reader leaves no more octets than it was
given, so what is left for the next one is as short.
-/

set_option autoImplicit false

namespace Rpki

namespace Machine

/-- What is made of the octets in front, and the octets behind, unless the machine stops. -/
def Reader (α : Type) := Octets → Option (Except TransferError α × Octets)

namespace Reader

variable {α β : Type}

instance : Monad Reader where
  pure a := fun s ↦ some (.ok a, s)
  bind r next := fun s ↦
    match r s with
    | some (.ok a, rest) => next a rest
    | some (.error e, rest) => some (.error e, rest)
    | none => none

theorem bind_apply (r : Reader α) (next : α → Reader β) (s : Octets) :
    (r >>= next) s =
      match r s with
      | some (.ok a, rest) => next a rest
      | some (.error e, rest) => some (.error e, rest)
      | none => none :=
  rfl

/-- What a reader makes of the octets, whatever it leaves. -/
def run (r : Reader α) (s : Octets) : Option (Except TransferError α) := (r s).map Prod.fst

/-- Fails without taking anything. -/
def fail (e : TransferError) : Reader α := fun s ↦ some (.error e, s)

/-- The result of something that has nothing to do with the octets. -/
def operation (x : Option α) : Reader α := fun s ↦ x.map fun a ↦ (.ok a, s)

/-! ## Octets and numbers -/

/-- Fails if there are less than `n` octets. -/
def checkRemaining (n : Nat) : Reader Unit := fun s ↦
  if s.length < n then some (.error (.truncated n s.length), s) else some (.ok (), s)

/-- Splits `n` octets off the front, of which there have to be as many. -/
def splitOff (n : Nat) : Reader (FixedOctets n) := fun s ↦
  (FixedOctets.take? n s).map fun (o, rest) ↦ (.ok o, rest)

/-- Takes `n` octets.  As many as there are in memory are a number of 63 bits. -/
def fixed (n : Nat) : Reader (FixedOctets n) := do
  checkRemaining n
  let _ ← operation (cast 63 n)
  splitOff n

/-- Takes a number of the given width as what `ofNat` makes of it. -/
def number (width : Nat) (ofNat : Nat → α) : Reader α := do
  let o ← fixed width
  return ofNat o.val.littleEndian

/-- Takes a yes or no. -/
def flag : Reader Bool := do
  let n ← number 4 fun n ↦ (UInt32.ofNat n).toInt32
  if n = 0 then return false
  else if n = 1 then return true
  else fail (.badFlag n)

/-- The number of items, if there are octets for as many of the given length.  A product of more
than 64 bits is taken for the largest number there is. -/
def checkItems (n itemLength : Nat) : Reader Nat :=
  match mul 64 n itemLength with
  | some needed => do
    checkRemaining needed
    operation (cast 63 n)
  | none => fun s ↦ some (.error (.truncated (UInt64.size - 1) s.length), s)

/-- Takes the number of items in a list, each of which has at least `itemLength` octets. -/
def count (itemLength : Nat) : Reader Nat := do
  let n ← number 8 UInt64.ofNat
  checkItems n.toNat itemLength

/-! ## Texts, times and lists -/

/-- Takes a text. -/
def string : Reader String := do
  let n ← number 8 UInt64.ofNat
  let o ← fixed n.toNat
  match o.val.toString? with
  | some s => return s
  | none => fail .badString

/-- Takes a text that may be missing, which an empty one is. -/
def optionalString : Reader (Option String) := do
  let s ← string
  return if s = "" then none else some s

/-- Takes a time. -/
def time : Reader Time := do
  let seconds ← number 8 fun n ↦ (UInt64.ofNat n).toInt64
  match Time.ofSeconds? seconds.toInt with
  | some t => return t
  | none => fail (.badTime seconds)

/-- Takes `n` items, one after the other. -/
def items (item : Reader α) : Nat → Reader (List α)
  | 0 => return []
  | n + 1 => do
    let a ← item
    let as ← items item n
    return a :: as

/-- Fails if there are octets left. -/
def finish : Reader Unit := fun s ↦
  if s = [] then some (.ok (), s) else some (.error (.trailingData s.length), s)

end Reader

/-! ## Readers that do not stop -/

variable {α β : Type}

/-- On octets that can be in memory the machine does not stop, and it makes of them what the reader
makes of them.  The reader leaves no more octets than there were. -/
structure Reads (c : Reader α) (r : Transfer.Reader α) : Prop where
  eq : ∀ s, s.length < 2 ^ 63 → c s = some (r s)
  le : ∀ s, (r s).2.length ≤ s.length

theorem Reads.run_eq {c : Reader α} {r : Transfer.Reader α} (h : Reads c r) {s : Octets}
    (hlt : s.length < 2 ^ 63) : c.run s = some (r.run s) := by
  rw [Reader.run, h.eq s hlt]
  rfl

theorem reads_pure (a : α) : Reads (pure a) (pure a) where
  eq _ _ := rfl
  le _ := Nat.le_refl _

theorem reads_fail (e : TransferError) : Reads (Reader.fail e : Reader α) (.fail e) where
  eq _ _ := rfl
  le _ := Nat.le_refl _

/-- One reader after the other. -/
theorem reads_bind {c : Reader α} {r : Transfer.Reader α} {next : α → Reader β}
    {next' : α → Transfer.Reader β} (h : Reads c r) (hnext : ∀ a, Reads (next a) (next' a)) :
    Reads (c >>= next) (r >>= next') where
  eq s hs := by
    obtain ⟨result, rest, hr⟩ : ∃ result rest, r s = (result, rest) := ⟨_, _, rfl⟩
    have hle : rest.length ≤ s.length := by simpa only [hr] using h.le s
    -- What is left is no longer, so the next reader has no more than what can be in memory either.
    rw [Reader.bind_apply, h.eq s hs, Transfer.Reader.bind_apply, hr]
    cases result with
    | ok a => exact (hnext a).eq rest (Nat.lt_of_le_of_lt hle hs)
    | error e => rfl
  le s := by
    obtain ⟨result, rest, hr⟩ : ∃ result rest, r s = (result, rest) := ⟨_, _, rfl⟩
    have hle : rest.length ≤ s.length := by simpa only [hr] using h.le s
    rw [Transfer.Reader.bind_apply, hr]
    cases result with
    | ok a => exact Nat.le_trans ((hnext a).le rest) hle
    | error e => exact hle

/-- What is made of a value afterwards. -/
theorem reads_map {c : Reader α} {r : Transfer.Reader α} (f : α → β) (h : Reads c r) :
    Reads (do return f (← c)) (do return f (← r)) :=
  reads_bind h fun a ↦ reads_pure (f a)

/-- An operation inside its domain, and what comes after it. -/
theorem reads_operation {x : Option α} {a : α} {next : α → Reader β} {r : Transfer.Reader β}
    (hx : x = some a) (h : Reads (next a) r) : Reads (Reader.operation x >>= next) r := by
  subst hx
  exact h

/-- **Octets are split off only if there are as many.** -/
theorem reads_fixed (n : Nat) : Reads (.fixed n) (.fixed n) where
  eq s hs := by
    rcases Nat.lt_or_ge s.length n with hlt | hle
    · have hcheck : Reader.checkRemaining n s = some (.error (.truncated n s.length), s) :=
        if_pos hlt
      have htake : FixedOctets.take? n s = none := FixedOctets.take?_eq_none_iff.mpr hlt
      rw [Reader.fixed, Reader.bind_apply, hcheck, Transfer.Reader.fixed, htake]
    · have hcheck : Reader.checkRemaining n s = some (.ok (), s) := if_neg (Nat.not_lt.mpr hle)
      have hcast : Reader.operation (cast 63 n) s = some (.ok n, s) := by
        rw [cast_eq_some (Nat.lt_of_le_of_lt hle hs)]
        rfl
      obtain ⟨⟨o, rest⟩, htake⟩ : ∃ p, FixedOctets.take? n s = some p :=
        Option.ne_none_iff_exists'.mp fun h ↦
          Nat.not_lt.mpr hle (FixedOctets.take?_eq_none_iff.mp h)
      simp only [Reader.fixed, Reader.bind_apply, hcheck, hcast, Reader.splitOff,
        Transfer.Reader.fixed, htake, Option.map_some]
  le s := by
    rw [Transfer.Reader.fixed]
    cases htake : FixedOctets.take? n s with
    | none => exact Nat.le_refl _
    | some p =>
      rw [FixedOctets.take?_eq_some_iff.mp htake, List.length_append]
      exact Nat.le_add_left _ _

/-- What is made of what was made of a value. -/
theorem map_map {γ : Type} (r : Transfer.Reader α) (f : α → β) (g : β → γ) :
    ((r >>= fun a ↦ pure (f a)) >>= fun b ↦ pure (g b)) = r >>= fun a ↦ pure (g (f a)) := by
  funext s
  simp only [Transfer.Reader.bind_apply]
  cases r s with
  | mk result rest => cases result <;> rfl

theorem reads_number (width : Nat) (ofNat : Nat → α) :
    Reads (.number width ofNat) (do return ofNat (← Transfer.Reader.number width)) := by
  rw [Transfer.Reader.number, map_map]
  exact reads_map _ (reads_fixed width)

theorem reads_uint64 : Reads (.number 8 UInt64.ofNat) .uint64 := reads_number 8 UInt64.ofNat

theorem reads_int32 : Reads (.number 4 fun n ↦ (UInt32.ofNat n).toInt32) .int32 := by
  rw [Transfer.Reader.int32, Transfer.Reader.uint32, map_map]
  exact reads_number 4 _

theorem reads_int64 : Reads (.number 8 fun n ↦ (UInt64.ofNat n).toInt64) .int64 := by
  rw [Transfer.Reader.int64, Transfer.Reader.uint64, map_map]
  exact reads_number 8 _

theorem reads_flag : Reads .flag .flag := by
  refine reads_bind reads_int32 fun n ↦ ?_
  split
  · exact reads_pure false
  split
  · exact reads_pure true
  · exact reads_fail _

/-- **A number of items is no larger than the number of octets**, if none of them is empty, and a
product that does not fit into 64 bits is more than there is in memory. -/
theorem reads_checkItems (n : Nat) {itemLength : Nat} (h : 0 < itemLength) :
    Reads (.checkItems n itemLength) (do
      Transfer.Reader.expect (n * itemLength)
      return n) where
  eq s hs := by
    rw [Transfer.Reader.bind_apply, Transfer.Reader.expect]
    rcases Nat.lt_or_ge s.length (n * itemLength) with hlt | hle
    · -- The error names the product, or the largest number of 64 bits if that is less.
      rw [if_neg (Nat.not_le.mpr hlt)]
      rcases Nat.lt_or_ge (n * itemLength) (2 ^ 64) with hfits | hmany
      · have hmin : min (n * itemLength) (UInt64.size - 1) = n * itemLength :=
          Nat.min_eq_left (Nat.le_sub_one_of_lt hfits)
        rw [Reader.checkItems, mul_eq_some hfits, hmin]
        dsimp only
        rw [Reader.bind_apply, Reader.checkRemaining, if_pos hlt]
      · have hmin : min (n * itemLength) (UInt64.size - 1) = UInt64.size - 1 :=
          Nat.min_eq_right (Nat.le_trans (Nat.sub_le _ _) hmany)
        have hmul : mul 64 n itemLength = none := if_neg (Nat.not_lt.mpr hmany)
        rw [Reader.checkItems, hmul, hmin]
    · -- There are as many octets, so neither the product nor its factor is too large.
      have hfits : n * itemLength < 2 ^ 64 := by omega
      have hn : n ≤ n * itemLength := Nat.le_mul_of_pos_right n h
      have hcast : cast 63 n = some n := cast_eq_some (by omega)
      rw [if_pos hle, Reader.checkItems, mul_eq_some hfits]
      dsimp only
      rw [Reader.bind_apply, Reader.checkRemaining, if_neg (Nat.not_lt.mpr hle), hcast]
      rfl
  le s := by
    rw [Transfer.Reader.bind_apply, Transfer.Reader.expect]
    by_cases hle : n * itemLength ≤ s.length
    · rw [if_pos hle]
      exact Nat.le_refl _
    · rw [if_neg hle]

theorem reads_count {itemLength : Nat} (h : 0 < itemLength) :
    Reads (.count itemLength) (.count itemLength) :=
  reads_bind reads_uint64 fun n ↦ reads_checkItems n.toNat h

theorem reads_string : Reads .string .string := by
  refine reads_bind reads_uint64 fun n ↦ reads_bind (reads_fixed _) fun o ↦ ?_
  cases o.val.toString? with
  | some s => exact reads_pure s
  | none => exact reads_fail _

theorem reads_optionalString : Reads .optionalString .optionalString :=
  reads_map _ reads_string

theorem reads_time : Reads .time .time := by
  refine reads_bind reads_int64 fun seconds ↦ ?_
  cases Time.ofSeconds? seconds.toInt with
  | some t => exact reads_pure t
  | none => exact reads_fail _

theorem reads_items {c : Reader α} {r : Transfer.Reader α} (h : Reads c r) (n : Nat) :
    Reads (.items c n) (.items r n) := by
  induction n with
  | zero => exact reads_pure []
  | succ n ih => exact reads_bind h fun a ↦ reads_bind ih fun as ↦ reads_pure (a :: as)

theorem reads_finish : Reads .finish .finish where
  eq s _ := by
    rw [Reader.finish, Transfer.Reader.finish]
    split <;> rfl
  le s := by
    rw [Transfer.Reader.finish]
    split <;> exact Nat.le_refl _

end Machine

end Rpki
