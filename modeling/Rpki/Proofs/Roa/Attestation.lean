import Mathlib.Data.List.Perm.Subperm
import Rpki.Proofs.Der.Integer
import Rpki.Proofs.Roa.Prefix
import Rpki.Roa.Content

/-!
# The grammar of route origin attestations

An `Attestation` is the content of a ROA as its definition has it: the number of an autonomous
system and blocks of entries, each of which is the bits of a prefix and perhaps a maximum length.
Whatever the definition demands is in the types, so there is an attestation for every content that
is allowed and for no other: an entry fits into the family of its block, neither a block nor the
list of blocks is empty, and no family has two blocks.

`Attestation.element` is the SEQUENCE that an attestation is written as, and `Attestation.content`
what it says.  The two differ in what they keep.  A missing maximum length is the length of the
prefix in the content, and blocks are no more than the order of prefixes there.
-/

set_option autoImplicit false

namespace Rpki

open Der

namespace Attestation

/-! ## Entries -/

/-- An entry of a block: the bits of a prefix, and perhaps the length of the longest prefix that may
be announced. -/
structure Entry (family : AddressFamily) where
  bits : BitString
  maxLength : Option UInt8
  /-- There are not more bits than in an address. -/
  bits_le : bits.bitLength ≤ family.width.toNat
  /-- A maximum length is between the length of the prefix and that of an address. -/
  maxLength_mem : ∀ m ∈ maxLength, bits.bitLength ≤ m.toNat ∧ m ≤ family.width

namespace Entry

variable {family : AddressFamily}

/-- The elements of an entry: a BIT STRING, and an INTEGER if there is a maximum length. -/
def elements (e : Entry family) : Sequence :=
  ⟨.bitString, false, e.bits.unused :: e.bits.octets⟩ ::
    (e.maxLength.map fun m ↦ (⟨.integer, false, (Integer.ofNat m.toNat).octets⟩ : Element)).toList

theorem elements_of_eq_none {e : Entry family} (h : e.maxLength = none) :
    e.elements = [⟨.bitString, false, e.bits.unused :: e.bits.octets⟩] := by
  rw [elements, h]
  rfl

theorem elements_of_eq_some {e : Entry family} {m : UInt8} (h : e.maxLength = some m) :
    e.elements =
      [⟨.bitString, false, e.bits.unused :: e.bits.octets⟩,
       ⟨.integer, false, (Integer.ofNat m.toNat).octets⟩] := by
  rw [elements, h]
  rfl

/-- The SEQUENCE that an entry is. -/
def element (e : Entry family) : Element := .ofSequence e.elements

/-- No address has more than sixteen octets. -/
theorem length_octets_le (e : Entry family) : e.bits.octets.length ≤ 16 := by
  refine e.bits.length_octets_le (Nat.le_trans e.bits_le ?_)
  cases family <;> decide

/-- The prefix of an entry: its bits with zeros behind them, and its own length for the longest one
if nothing else is said. -/
def toPrefix (e : Entry family) : Prefix where
  family := family
  address := Prefix.addressOf family (.padRight 16 e.bits.octets e.length_octets_le)
  length := UInt8.ofNat e.bits.bitLength
  maxLength := e.maxLength.getD (UInt8.ofNat e.bits.bitLength)

theorem regularIfShort_elements (e : Entry family) : ∀ x ∈ e.elements, x.RegularIfShort := by
  intro x hx
  rw [elements, List.mem_cons, Option.mem_toList, Option.map_eq_some_iff] at hx
  rcases hx with rfl | ⟨m, -, rfl⟩
  · exact Element.regularIfShort_primitive .bitString _
  · exact Element.regularIfShort_primitive .integer _

end Entry

/-! ## Blocks -/

/-- The entries for one family. -/
structure Block where
  family : AddressFamily
  entries : List (Entry family)
  entries_ne : entries ≠ []

namespace Block

/-- The elements of a block: the two octets of the number of its family, and its entries. -/
def elements (b : Block) : Sequence :=
  [⟨.octetString, false, Octets.ofBigEndian 2 b.family.number.toNat⟩,
   .ofSequence (b.entries.map Entry.element)]

/-- The SEQUENCE that a block is. -/
def element (b : Block) : Element := .ofSequence b.elements

/-- The prefixes of a block. -/
def prefixes (b : Block) : List Prefix := b.entries.map Entry.toPrefix

theorem regularIfShort_entries (b : Block) :
    ∀ x ∈ b.entries.map Entry.element, x.RegularIfShort := by
  intro x hx
  obtain ⟨e, -, rfl⟩ := List.mem_map.mp hx
  exact Element.regularIfShort_ofSequence e.regularIfShort_elements

theorem regularIfShort_elements (b : Block) : ∀ x ∈ b.elements, x.RegularIfShort := by
  intro x hx
  simp only [elements, List.mem_cons, List.not_mem_nil, or_false] at hx
  rcases hx with rfl | rfl
  · exact Element.regularIfShort_primitive .octetString _
  · exact Element.regularIfShort_ofSequence b.regularIfShort_entries

/-- A block has no more prefixes than octets. -/
theorem length_prefixes_le (b : Block) : b.prefixes.length ≤ b.element.octets.length := by
  have hentries := Element.length_le_length_flatMap_octets (b.entries.map Entry.element)
  rw [List.length_map] at hentries
  calc b.prefixes.length = b.entries.length := List.length_map _
    _ ≤ (Element.ofSequence (b.entries.map Entry.element)).content.length := hentries
    _ ≤ b.element.content.length :=
        Element.length_content_le_of_mem (List.mem_cons_of_mem _ List.mem_cons_self)
    _ ≤ b.element.octets.length := b.element.length_content_le

end Block

end Attestation

/-! ## Attestations -/

/-- The content of a ROA as it is written. -/
structure Attestation where
  asId : UInt32
  blocks : List Attestation.Block
  /-- There are one or two blocks. -/
  count : blocks.length = 1 ∨ blocks.length = 2
  /-- No family has two blocks. -/
  nodup : (blocks.map Attestation.Block.family).Nodup

namespace Attestation

/-- The elements of an attestation: an INTEGER, and the blocks. -/
def elements (a : Attestation) : Sequence :=
  [⟨.integer, false, (Integer.ofNat a.asId.toNat).octets⟩, .ofSequence (a.blocks.map Block.element)]

/-- The SEQUENCE that an attestation is. -/
def element (a : Attestation) : Element := .ofSequence a.elements

/-- What an attestation says: the prefixes of all blocks, in the order they come in. -/
def content (a : Attestation) : RoaContent := ⟨a.asId, a.blocks.flatMap Block.prefixes⟩

theorem regularIfShort_blocks (blocks : List Block) :
    ∀ x ∈ blocks.map Block.element, x.RegularIfShort := by
  intro x hx
  obtain ⟨b, -, rfl⟩ := List.mem_map.mp hx
  exact Element.regularIfShort_ofSequence b.regularIfShort_elements

theorem regularIfShort_elements (a : Attestation) : ∀ x ∈ a.elements, x.RegularIfShort := by
  intro x hx
  simp only [elements, List.mem_cons, List.not_mem_nil, or_false] at hx
  rcases hx with rfl | rfl
  · exact Element.regularIfShort_primitive .integer _
  · exact Element.regularIfShort_ofSequence (regularIfShort_blocks a.blocks)

theorem length_flatMap_prefixes_le (blocks : List Block) :
    (blocks.flatMap Block.prefixes).length ≤
      (Element.ofSequence (blocks.map Block.element)).content.length := by
  induction blocks with
  | nil => exact Nat.le_refl 0
  | cons b blocks ih =>
    have hb := b.length_prefixes_le
    simp only [Element.ofSequence, List.map_cons, List.flatMap_cons, List.length_append] at ih ⊢
    omega

/-- There are no more prefixes than octets, in all blocks together. -/
theorem length_content_prefixes_le (a : Attestation) :
    a.content.prefixes.length ≤ a.element.content.length :=
  Nat.le_trans (length_flatMap_prefixes_le a.blocks)
    (Element.length_content_le_of_mem (List.mem_cons_of_mem _ List.mem_cons_self))

/-- Blocks of distinct families are one or two unless there are none, since there are two
families. -/
theorem count_iff {blocks : List Block} (h : (blocks.map Block.family).Nodup) :
    (blocks.length = 1 ∨ blocks.length = 2) ↔ blocks ≠ [] := by
  have hsubset : blocks.map Block.family ⊆ [.ipv4, .ipv6] := by
    intro family _
    cases family <;> decide
  have hle : blocks.length ≤ 2 := by
    have hle := (List.subperm_of_subset h hsubset).length_le
    rwa [List.length_map] at hle
  rw [← List.length_pos_iff]
  omega

end Attestation

end Rpki
