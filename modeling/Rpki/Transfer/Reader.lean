import Rpki.Time.Basic
import Rpki.Octets
import Rpki.Transfer.Error

/-!
# Reading the transfer form

A `Reader` takes a field off the front of the octets, or fails.  Either way it says which octets are
left.  A reader that fails for want of octets has taken none of them, while one that does not like
what it has read has taken what it looked at: what is left then is what lies behind the offending
number or text.

Readers are put together in a `do` block, which ends with the first that fails.
-/

set_option autoImplicit false

namespace Rpki

namespace Transfer

/-- What is made of the octets in front, and the octets behind. -/
def Reader (α : Type) := Octets → Except TransferError α × Octets

namespace Reader

variable {α : Type}

instance : Monad Reader where
  pure a := fun s ↦ (.ok a, s)
  bind r next := fun s ↦
    match r s with
    | (.ok a, rest) => next a rest
    | (.error e, rest) => (.error e, rest)

/-- What a reader makes of the octets, whatever it leaves. -/
def run (r : Reader α) (s : Octets) : Except TransferError α := (r s).1

/-- Fails without taking anything. -/
def fail (e : TransferError) : Reader α := fun s ↦ (.error e, s)

/-! ## Octets and numbers -/

/-- Takes `n` octets. -/
def fixed (n : Nat) : Reader (FixedOctets n) := fun s ↦
  match FixedOctets.take? n s with
  | some (o, rest) => (.ok o, rest)
  | none => (.error (.truncated n s.length), s)

/-- Takes a number of the given width. -/
def number (width : Nat) : Reader Nat := do
  let o ← fixed width
  return o.val.littleEndian

def uint8 : Reader UInt8 := do return UInt8.ofNat (← number 1)

def uint16 : Reader UInt16 := do return UInt16.ofNat (← number 2)

def uint32 : Reader UInt32 := do return UInt32.ofNat (← number 4)

def uint64 : Reader UInt64 := do return UInt64.ofNat (← number 8)

def int32 : Reader Int32 := do return (← uint32).toInt32

def int64 : Reader Int64 := do return (← uint64).toInt64

/-- Takes a yes or no.  There is one number for each, and no other number is either. -/
def flag : Reader Bool := do
  let n ← int32
  if n = 0 then return false
  else if n = 1 then return true
  else fail (.badFlag n)

/-- Fails if there are less than `n` octets.  The number named in the error stops at the largest of
64 bits. -/
def expect (n : Nat) : Reader Unit := fun s ↦
  if n ≤ s.length then (.ok (), s) else (.error (.truncated (min n (UInt64.size - 1)) s.length), s)

/-- Takes the number of items in a list, each of which has at least `itemLength` octets.  A number
that the octets behind it cannot hold is refused before anything is made of it. -/
def count (itemLength : Nat) : Reader Nat := do
  let n ← uint64
  expect (n.toNat * itemLength)
  return n.toNat

/-! ## Texts, times and lists -/

/-- Takes a text. -/
def string : Reader String := do
  let n ← uint64
  let o ← fixed n.toNat
  match o.val.toString? with
  | some s => return s
  | none => fail .badString

/-- Takes a text that may be missing, which an empty one is. -/
def optionalString : Reader (Option String) := do
  let s ← string
  return if s = "" then none else some s

/-- Takes a time. -/
def time : Reader Time := do
  let seconds ← int64
  match Time.ofSeconds? seconds.toInt with
  | some t => return t
  | none => fail (.badTime seconds)

/-- Takes `n` items, one after the other. -/
def items (item : Reader α) : Nat → Reader (List α)
  | 0 => return []
  | n + 1 => do
    let a ← item
    let as ← items item n
    return a :: as

/-- Fails if there are octets left. -/
def finish : Reader Unit := fun s ↦
  if s = [] then (.ok (), s) else (.error (.trailingData s.length), s)

end Reader

end Transfer

end Rpki
