import Rpki.Proofs.Der.Content
import Rpki.Proofs.Der.Sequence
import Rpki.Proofs.Machine.Operation
import Rpki.Proofs.Roa.Prefix

/-!
# Prefixes on a machine

The octets of an address are copied between strings of four and of sixteen octets, the bits behind a
prefix are tested with a mask that is shifted to its end, and the length of a BIT STRING becomes a
number of eight bits.  No bound on any of these is checked where they are done.  The bits of the
address are counted before, and there are no more of them than the family has; and an octet is
shifted only if the end of the prefix is inside it.
-/

set_option autoImplicit false

namespace Rpki

namespace Machine

/-! ## Host bits -/

/-- Are the bits of the octet at a position behind the first `length` bits of all octets zero? -/
def octetClear (length position : Nat) (b : UInt8) : Option Bool := do
  let start ← mul 64 position 8
  if (← add 64 start 8) ≤ length then return true
  else if length ≤ start then return b == 0
  else return b &&& (← shiftRight 0xFF (← sub length start)) == 0

/-- Are all bits behind the first `length` zero, in octets that start at a position?  The first
octet with another bit ends the test. -/
def hostBitsClear (length : Nat) : Nat → Octets → Option Bool
  | _, [] => return true
  | position, b :: rest => do
    if ← octetClear length position b then hostBitsClear length (position + 1) rest
    else return false

/-- The bits that a shifted mask selects are the remainder modulo a power of two. -/
theorem and_mask_eq_zero (n : Fin 8) (b : UInt8) :
    (b &&& ((0xFF : UInt8) >>> UInt8.ofNat n.val) == 0) = (b.toNat % 2 ^ (8 - n.val) == 0) :=
  forall_octet (p := fun b ↦
    (b &&& ((0xFF : UInt8) >>> UInt8.ofNat n.val) == 0) = (b.toNat % 2 ^ (8 - n.val) == 0))
    (by revert n; decide +kernel) b

/-- All bits of an octet are its remainder modulo the number of octets there are. -/
theorem octet_eq_zero (b : UInt8) : (b == 0) = (b.toNat % 2 ^ 8 == 0) := by
  rw [Nat.mod_eq_of_lt b.toNat_lt, Bool.eq_iff_iff, beq_iff_eq, beq_iff_eq, ← UInt8.toNat_inj]
  rfl

theorem octetClear_eq {length position : Nat} {b : UInt8} (h : position < 16) :
    octetClear length position b = some (b.toNat % 2 ^ (8 - (length - 8 * position)) == 0) := by
  have hmul : mul 64 position 8 = some (8 * position) := by
    rw [mul_eq_some (by omega), Nat.mul_comm]
  have hadd : add 64 (8 * position) 8 = some (8 * position + 8) := add_eq_some (by omega)
  simp only [octetClear, hmul, hadd, Option.bind_eq_bind, Option.bind_some, Option.pure_def]
  split
  · next hinside =>
    have hexp : 8 - (length - 8 * position) = 0 := by omega
    rw [hexp, Nat.pow_zero, Nat.mod_one]
    rfl
  split
  · next hbehind => rw [Nat.sub_eq_zero_of_le hbehind, Nat.sub_zero, octet_eq_zero]
  · next hend hstart =>
    -- The end of the prefix is inside this octet, so the shift is by less than eight.
    have hlt : length - 8 * position < 8 := by omega
    rw [sub_eq_some (Nat.le_of_not_le hstart), Option.bind_some, shiftRight_eq_some hlt,
      Option.bind_some]
    exact congrArg some (and_mask_eq_zero ⟨length - 8 * position, hlt⟩ b)

/-- **No shift goes past the end of an octet**, and the positions are all below sixteen. -/
theorem hostBitsClear_eq {length position : Nat} {o : Octets} (h : position + o.length ≤ 16) :
    hostBitsClear length position o =
      some (Prefix.hostBitsClear o (length - 8 * position)) := by
  induction o generalizing position with
  | nil => rfl
  | cons b rest ih =>
    rw [List.length_cons] at h
    have hnext : length - 8 * position - 8 = length - 8 * (position + 1) := by omega
    rw [hostBitsClear, octetClear_eq (by omega), Prefix.hostBitsClear_cons, hnext,
      Option.bind_eq_bind, Option.bind_some, ih (by omega)]
    cases b.toNat % 2 ^ (8 - (length - 8 * position)) == 0 <;> rfl

/-! ## Addresses -/

/-- The address at the front of sixteen octets. -/
def addressOf : AddressFamily → FixedOctets 16 → Option IpAddress
  | .ipv4, o => do return .v4 (← write (zeros 4) 0 4 (← slice o.val 0 4))
  | .ipv6, o => return .v6 o

/-- The family of an address and its octets, filled up to sixteen. -/
def widened : IpAddress → Option (AddressFamily × FixedOctets 16)
  | .v4 o => do return (.ipv4, ← write (zeros 16) 0 4 o.val)
  | .v6 o => return (.ipv6, o)

theorem addressOf_eq (family : AddressFamily) (o : FixedOctets 16) :
    addressOf family o = some (Prefix.addressOf family o) := by
  cases family with
  | ipv6 => rfl
  | ipv4 =>
    have hfront : (o.val.take 4).length = 4 := by
      rw [List.length_take, o.property]
      rfl
    have hslice : slice o.val 0 4 = some (o.val.take 4) :=
      slice_front (by rw [o.property]; decide)
    have hwrite := write_front (Nat.le_of_eq hfront) hfront.symm
    have hpad : FixedOctets.padRight 4 (o.val.take 4) (Nat.le_of_eq hfront) =
        ⟨o.val.take 4, hfront⟩ := by
      refine Subtype.ext ?_
      simp only [FixedOctets.padRight, hfront, Nat.sub_self, List.replicate_zero, List.append_nil]
    simp only [addressOf, hslice, hwrite, hpad, Option.bind_eq_bind, Option.bind_some,
      Option.pure_def, Prefix.addressOf]

theorem widened_eq (address : IpAddress) : widened address = some (Prefix.widened address) := by
  cases address with
  | v6 o => rfl
  | v4 o =>
    have hle : o.val.length ≤ 16 := by rw [o.property]; decide
    rw [widened, write_front hle o.property.symm]
    rfl

/-! ## Prefixes -/

/-- The prefix with the given octets and lengths. -/
def prefixOfOctets (family : AddressFamily) (octets : FixedOctets 16) (length : UInt8)
    (maxLength : Option UInt8) : ExceptT SemanticError Option Prefix :=
  let longest := maxLength.getD length
  if family.width < length then throw (.prefixLength length.toNat)
  else if longest < length ∨ family.width < longest then
    throw (.maxLength length.toNat (some longest.toNat))
  else do
    if ← hostBitsClear length.toNat 0 octets.val then
      return ⟨family, ← addressOf family octets, length, longest⟩
    else throw (.prefixLength length.toNat)

/-- The prefix of an address with the given lengths. -/
def prefixOfAddress (address : IpAddress) (length : UInt8) (maxLength : Option UInt8) :
    ExceptT SemanticError Option Prefix := do
  let (family, octets) ← widened address
  prefixOfOctets family octets length maxLength

/-- Is it a prefix that keeps the rules? -/
def isValid (p : Prefix) : Option Bool := do
  match ← (prefixOfAddress p.address p.length (some p.maxLength)).run with
  | .ok q => return q == p
  | .error _ => return false

theorem computes_prefixOfOctets (family : AddressFamily) (octets : FixedOctets 16) (length : UInt8)
    (maxLength : Option UInt8) :
    Computes (prefixOfOctets family octets length maxLength)
      (Prefix.ofOctets family octets length maxLength) := by
  have hclear : hostBitsClear length.toNat 0 octets.val =
      some (Prefix.hostBitsClear octets.val (length.toNat - 8 * 0)) :=
    hostBitsClear_eq (by rw [octets.property])
  rw [Nat.mul_zero, Nat.sub_zero] at hclear
  rw [prefixOfOctets, Prefix.ofOctets]
  split
  · exact computes_error _
  split
  · exact computes_error _
  refine computes_operation hclear ?_
  split
  · exact computes_operation (addressOf_eq _ _) (computes_ok _)
  · exact computes_error _

theorem computes_prefixOfAddress (address : IpAddress) (length : UInt8)
    (maxLength : Option UInt8) :
    Computes (prefixOfAddress address length maxLength)
      (Prefix.ofAddress address length maxLength) :=
  computes_operation (widened_eq address) (computes_prefixOfOctets _ _ _ _)

theorem isValid_eq (p : Prefix) : isValid p = some p.isValid := by
  have hrun := computes_prefixOfAddress p.address p.length (some p.maxLength)
  rw [Computes] at hrun
  rw [isValid, hrun, Prefix.isValid, Option.bind_eq_bind, Option.bind_some]
  cases Prefix.ofAddress p.address p.length (some p.maxLength) <;> rfl

/-! ## Reading -/

/-- The number of bits that count. -/
def bitLength (b : Der.BitString) : Option Nat := do
  sub (← mul 64 b.octets.length 8) b.unused.toNat

/-- Reads a prefix from its elements. -/
def prefixOfElements (family : AddressFamily) (item : Der.Sequence) :
    ExceptT ParseError Option Prefix := do
  let count ← inField .roaIpAddress (item.checkCount [1, 2])
  let bits ← inField .address (item.bitString 0)
  let length ← bitLength bits
  if length ≤ family.width.toNat then
    let width ← cast 8 length
    let octets ← write (zeros 16) 0 bits.octets.length bits.octets
    let maxLength ←
      if count = 2 then do
        let n ← inField .maxLength (item.integer 1)
        some <$> asValue (Prefix.maxLengthOf width n)
      else pure none
    asValue (prefixOfOctets family octets (UInt8.ofNat width) maxLength)
  else
    asValue (throw (.prefixLength length))

/-- There is no unused bit without an octet that it is in. -/
theorem unused_le_length_octets (b : Der.BitString) : b.unused.toNat ≤ 8 * b.octets.length := by
  have hunused := b.unused_le
  cases hoctets : b.octets with
  | cons o os =>
    rw [List.length_cons]
    omega
  | nil =>
    have hregular := b.regular
    simp only [Der.BitString.isRegular, hoctets, List.isEmpty_nil, Bool.not_true, Bool.false_or,
      Bool.and_eq_true, beq_iff_eq] at hregular
    rw [hregular.1.2]
    exact Nat.zero_le _

theorem bitLength_eq {b : Der.BitString} (hlt : b.octets.length < 2 ^ 32) :
    bitLength b = some b.bitLength := by
  rw [bitLength, mul_eq_some (by omega), Option.bind_eq_bind, Option.bind_some,
    Nat.mul_comm, sub_eq_some (unused_le_length_octets b)]
  rfl

/-- No element that was read is longer than a number of 32 bits can say. -/
theorem length_octets_lt_of_bitString {item : Der.Sequence} {position : Nat} {b : Der.BitString}
    (h : ∀ e ∈ item, e.IsRegular) (hb : item.bitString position = .ok b) :
    b.octets.length < 2 ^ 32 := by
  obtain ⟨content, hget, hread⟩ := Der.Sequence.contentAt_eq_ok_iff.mp hb
  have hlt : content.length < 2 ^ 32 := (h _ (List.mem_of_getElem? hget)).lt
  rw [← Der.BitString.read?_eq_some_iff.mp hread, List.length_cons] at hlt
  omega

/-- **A prefix is read without stopping**: its bits are no more than the family has before they are
counted in eight bits, and their octets then go into sixteen. -/
theorem computes_prefixOfElements {family : AddressFamily} {item : Der.Sequence}
    (h : ∀ e ∈ item, e.IsRegular) :
    Computes (prefixOfElements family item) (Prefix.ofElements family item) := by
  refine computes_bind (computes_inField (computes_lift _)) fun count _ ↦ ?_
  refine computes_bind (computes_inField (computes_lift _)) fun bits hbits ↦ ?_
  have hlt := length_octets_lt_of_bitString h (inField_eq_ok_iff.mp hbits)
  refine computes_operation (bitLength_eq hlt) ?_
  split
  · next hle =>
    -- The family bounds the bits that count, and these reach into the last octet.
    have hwidth : family.width.toNat ≤ 128 := by cases family <;> decide
    have hcast : cast 8 bits.bitLength = some bits.bitLength := cast_eq_some (by omega)
    have hlength : bits.octets.length ≤ 16 := bits.length_octets_le (by omega)
    have hrest (maxLength : Option UInt8) := computes_asValue
      (computes_prefixOfOctets family (.padRight 16 bits.octets hlength)
        (UInt8.ofNat bits.bitLength) maxLength)
    refine computes_operation hcast (computes_operation (write_front hlength rfl) ?_)
    dsimp only
    split
    · refine computes_bind (computes_inField (computes_lift _)) fun n _ ↦ ?_
      exact computes_bind (computes_map some (computes_asValue (computes_lift _))) fun _ _ ↦ hrest _
    · exact hrest none
  · exact computes_asValue (computes_error _)

end Machine

end Rpki
