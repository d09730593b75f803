import Rpki.Manifest.Entry
import Rpki.Proofs.Der.Header
import Rpki.Proofs.Machine.Operation
import Rpki.Proofs.Manifest.Number

/-!
# Texts in buffers

Manifest numbers and digests are shown as hexadecimal digits, which a machine writes into a buffer
of fixed length, two octets at a time, and then takes for a text.  The buffer for numbers has 40
octets and the one for digests 64.  These are enough because a number has at most twenty octets and
a digest has 32.

`Machine.encode_eq_encodeInto` says that a buffer that is too short is the one thing that can go
wrong: every digit is found in the table, and every pair has a place of its own.
`Machine.numberText_eq` and `Machine.digestText_eq` say that it does not go wrong here, and that the
texts are those of the library.  The other parts of what is read, times and prefixes, are shown
without such operations.
-/

set_option autoImplicit false

namespace Rpki

namespace Machine

/-! ## Digits -/

/-- The digits in their order. -/
def digits : Octets := Octets.ofString "0123456789ABCDEF"

/-- The two digits of an octet, from the places of the table that its halves say. -/
def pair (b : UInt8) : Option Octets := do
  let high ← shiftRight b 4
  let first ← octetAt digits high.toNat
  let second ← octetAt digits (b &&& 0x0F).toNat
  return [first, second]

theorem pair_eq (b : UInt8) : pair b = some (Hex.pair b) :=
  forall_octet (p := fun b ↦ pair b = some (Hex.pair b)) (by decide +kernel) b

-- Deciding `∀ d ∈ Hex.pair b` could mean to go through all octets `d`, hence the detour.
theorem lt_of_mem_pair (b : UInt8) : ∀ d ∈ Hex.pair b, d < 0x80 := by
  have hall : (Hex.pair b).all (· < 0x80) = true :=
    forall_octet (p := fun b ↦ (Hex.pair b).all (· < 0x80) = true) (by decide +kernel) b
  intro d hd
  exact of_decide_eq_true (List.all_eq_true.mp hall d hd)

/-- The digits of octets are the UTF-8 form of the text that they are read as octet by octet. -/
theorem toString?_flatMap_pair (src : Octets) :
    Octets.toString? (src.flatMap Hex.pair) = some (Hex.encode src) := by
  have hascii : ∀ d ∈ src.flatMap Hex.pair, d < 0x80 := by
    intro d hd
    obtain ⟨b, -, hd⟩ := List.mem_flatMap.mp hd
    exact lt_of_mem_pair b d hd
  exact Octets.toString?_eq_some_iff.mpr (Octets.ofString_ascii hascii).symm

/-! ## Buffers -/

/-- Copies the digits of the octets to a buffer, each two to the next chunk of two.  The end of
either the octets or the buffer ends the copying. -/
def writeDigits : Octets → Octets → Option Octets
  | [], dest => some dest
  | b :: src, dest =>
    if dest = [] then some []
    else do
      let chunk ← copy (dest.take 2) (← pair b)
      let rest ← writeDigits src (dest.drop 2)
      return chunk ++ rest

/-- The text of the digits of `src`, which are written to the front of `dest`. -/
def encode (src dest : Octets) : Option String := do
  let length ← mul 64 src.length 2
  let written ← writeDigits src (← slice dest 0 length)
  written.toString?

theorem writeDigits_eq {src dest : Octets} (h : dest.length = 2 * src.length) :
    writeDigits src dest = some (src.flatMap Hex.pair) := by
  induction src generalizing dest with
  | nil =>
    rw [List.length_eq_zero_iff.mp h]
    rfl
  | cons b src ih =>
    rw [List.length_cons] at h
    have hne : dest ≠ [] := by
      rintro rfl
      simp at h
    have hchunk : (dest.take 2).length = (Hex.pair b).length := by
      rw [List.length_take, h]
      change min 2 _ = 2
      omega
    have hrest : (dest.drop 2).length = 2 * src.length := by
      rw [List.length_drop]
      omega
    rw [writeDigits, if_neg hne, pair_eq, Option.bind_eq_bind, Option.bind_some,
      copy_eq_some hchunk, ih hrest]
    rfl

/-- **The digits fit into a buffer** that is twice as long as the octets. -/
theorem encode_eq {src dest : Octets} (h : 2 * src.length ≤ dest.length)
    (hlt : dest.length < 2 ^ 64) : encode src dest = some (Hex.encode src) := by
  have hlength : mul 64 src.length 2 = some (src.length * 2) := mul_eq_some (by omega)
  have hslice : slice dest 0 (src.length * 2) = some (dest.take (src.length * 2)) :=
    slice_front (by omega)
  have hwritten : writeDigits src (dest.take (src.length * 2)) = some (src.flatMap Hex.pair) :=
    writeDigits_eq (by rw [List.length_take]; omega)
  simp only [encode, hlength, hslice, hwritten, toString?_flatMap_pair, Option.bind_eq_bind,
    Option.bind_some]

/-- What is written over the front of a buffer that is long enough are the digits. -/
theorem take_overwrite {src dest : Octets} (h : 2 * src.length ≤ dest.length) :
    (Hex.overwrite src dest).take (2 * src.length) = src.flatMap Hex.pair := by
  induction src generalizing dest with
  | nil => rfl
  | cons b src ih =>
    rw [List.length_cons] at h ⊢
    obtain ⟨c, dest, rfl⟩ := List.exists_cons_of_length_pos (l := dest) (by omega)
    rw [List.length_cons] at h
    obtain ⟨d, dest, rfl⟩ := List.exists_cons_of_length_pos (l := dest) (by omega)
    rw [List.length_cons] at h
    have hrest : 2 * src.length ≤ dest.length := by omega
    rw [Hex.overwrite, Nat.mul_add, List.take_succ_cons, List.take_succ_cons, ih hrest]
    rfl

/-- **The machine stops exactly for buffers that are too short**, and writes the same text as the
library into all others. -/
theorem encode_eq_encodeInto {src dest : Octets} (hlt : dest.length < 2 ^ 64) :
    encode src dest = (Hex.encodeInto src dest).map Prod.fst := by
  rw [Hex.encodeInto]
  split
  · next hle =>
    rw [encode_eq hle hlt, Option.map_some, take_overwrite hle]
    rfl
  · next hshort =>
    rw [encode, mul]
    split
    · have hslice : slice dest 0 (src.length * 2) = none := if_neg fun h ↦ hshort (by omega)
      rw [Option.bind_eq_bind, Option.bind_some, hslice]
      rfl
    · rfl

example : encode [0xA5] (zeros 1).val = none := by decide

/-! ## Numbers and digests -/

/-- The text of a manifest number. -/
def numberText (n : ManifestNumber) : Option String := do
  let start := n.octets.val.findIdx (· != 0)
  let significant ← slice n.octets.val start n.octets.val.length
  if significant = [] then return "0" else encode significant (zeros 40).val

/-- The text of a digest. -/
def digestText (d : Digest) : Option String := encode d.val (zeros 64).val

/-- **A number is shown in a buffer of 40 octets.** -/
theorem numberText_eq (n : ManifestNumber) : numberText n = some n.text := by
  have hle : n.octets.val.significant.length ≤ 20 := n.length_significant_le
  rw [numberText, slice_significant, Option.bind_eq_bind, Option.bind_some, ManifestNumber.text,
    ManifestNumber.significant]
  split
  · rfl
  · exact encode_eq (by rw [length_zeros]; omega) (by rw [length_zeros]; decide)

/-- **A digest is shown in a buffer of 64 octets.** -/
theorem digestText_eq (d : Digest) : digestText d = some (Digest.text d) := by
  refine encode_eq ?_ ?_
  · rw [length_zeros, d.property]
  · rw [length_zeros]
    decide

end Machine

end Rpki
