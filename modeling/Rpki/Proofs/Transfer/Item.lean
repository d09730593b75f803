import Rpki.Proofs.Time.Correspondence
import Rpki.Proofs.Transfer.Reader
import Rpki.Transfer.Item

/-!
# Items one after the other

Nothing in the transfer form says where an item ends or of which shape it is.  An item that took one
octet more or less when it is read than when it was written would shift all items behind it, and
these would still be items of some kind.  So what is shown of a single item is shown with any octets
behind it (`Item.read_write`): all of its own octets are taken, and none of the others.

From that, items of any shapes are read back in the order they were written in, and what was put
behind them is left (`Transfer.readAll_writeAll`).  They come back as they were, but for the two
that `Item.settled` names.
-/

set_option autoImplicit false

namespace Rpki

namespace Transfer

/-! ## Single items -/

namespace Item

/-- The length of a text can be written.  Items without a text always fit. -/
def Fits : Item → Prop
  | string s => s.utf8ByteSize < 2 ^ 64
  | optionalString s => (s.getD "").utf8ByteSize < 2 ^ 64
  | _ => True

instance (i : Item) : Decidable i.Fits := by cases i <;> unfold Fits <;> infer_instance

/-- An empty text is read as a missing one. -/
theorem optionalString_write (s : Option String) (h : (s.getD "").utf8ByteSize < 2 ^ 64)
    (rest : Octets) :
    Reader.optionalString (Writer.optionalString s ++ rest) =
      (.ok (if s = some "" then none else s), rest) := by
  rw [Reader.optionalString_eq_ok_iff]
  split
  · next hempty => exact ⟨nofun, by decide, by rw [hempty]; rfl⟩
  · next hne => exact ⟨hne, h, rfl⟩

/-- A time is read as its whole second, since nothing else of it is written. -/
theorem time_write (t : Time) (rest : Octets) :
    Reader.time (Writer.time t ++ rest) = (.ok t.wholeSecond, rest) :=
  Reader.time_eq_ok_iff.mpr ⟨rfl, rfl⟩

theorem settled_optionalString (s : Option String) :
    (optionalString s).settled = optionalString (if s = some "" then none else s) := by
  split
  · next hempty => rw [hempty, settled]
  · next hne => simp [settled, hne]

/-- Outside of leap seconds, a time comes back truncated. -/
theorem settled_time {t : Time} (h : ¬ t.IsLeap) : (time t).settled = time t.truncated := by
  rw [settled, Time.truncated_eq_wholeSecond_iff.mpr (Nat.not_le.mp h)]

/-- **An item is read back whatever is behind it**, and that is left. -/
theorem read_write {i : Item} (h : i.Fits) (rest : Octets) :
    i.shape.read (i.write ++ rest) = (.ok i.settled, rest) := by
  rw [Fits.eq_def] at h
  cases i with
  | uint8 n => exact Reader.map_eq_ok_iff.mpr ⟨n, Reader.uint8_eq_ok_iff.mpr rfl, rfl⟩
  | uint16 n => exact Reader.map_eq_ok_iff.mpr ⟨n, Reader.uint16_eq_ok_iff.mpr rfl, rfl⟩
  | uint32 n => exact Reader.map_eq_ok_iff.mpr ⟨n, Reader.uint32_eq_ok_iff.mpr rfl, rfl⟩
  | uint64 n => exact Reader.map_eq_ok_iff.mpr ⟨n, Reader.uint64_eq_ok_iff.mpr rfl, rfl⟩
  | int32 n => exact Reader.map_eq_ok_iff.mpr ⟨n, Reader.int32_eq_ok_iff.mpr rfl, rfl⟩
  | int64 n => exact Reader.map_eq_ok_iff.mpr ⟨n, Reader.int64_eq_ok_iff.mpr rfl, rfl⟩
  | length n =>
    have hwrite : Writer.length n.toNat = Writer.uint64 n := by
      rw [Writer.length, UInt64.ofNat_toNat]
    exact Reader.map_eq_ok_iff.mpr ⟨n, Reader.uint64_eq_ok_iff.mpr (by rw [write, hwrite]), rfl⟩
  | flag b => exact Reader.map_eq_ok_iff.mpr ⟨b, Reader.flag_eq_ok_iff.mpr rfl, rfl⟩
  | fixed o => exact Reader.map_eq_ok_iff.mpr ⟨⟨o, rfl⟩, Reader.fixed_eq_ok_iff.mpr rfl, rfl⟩
  | string s =>
    rw [shape, Shape.read, write]
    exact Reader.map_eq_ok_iff.mpr ⟨s, Reader.string_eq_ok_iff.mpr ⟨h, rfl⟩, rfl⟩
  | optionalString s =>
    rw [shape, Shape.read, write, settled_optionalString]
    exact Reader.map_eq_ok_iff.mpr ⟨_, optionalString_write s h rest, rfl⟩
  | time t =>
    rw [shape, Shape.read, write, settled]
    exact Reader.map_eq_ok_iff.mpr ⟨_, time_write t rest, rfl⟩

/-! ## Items in order -/

/-- The octets of items one after the other. -/
def writeAll (items : List Item) : Octets := items.flatMap write

end Item

/-- Takes items of the given shapes one after the other. -/
def Shape.readAll : List Shape → Reader (List Item)
  | [] => return []
  | shape :: shapes => do
    let i ← shape.read
    let is ← readAll shapes
    return i :: is

theorem Shape.readAll_writeAll_append {items : List Item} (h : ∀ i ∈ items, i.Fits)
    (tail : Octets) :
    readAll (items.map Item.shape) (Item.writeAll items ++ tail) =
      (.ok (items.map Item.settled), tail) := by
  induction items with
  | nil => rfl
  | cons i items ih =>
    rw [List.forall_mem_cons] at h
    have hfirst := Item.read_write h.1 (Item.writeAll items ++ tail)
    rw [← List.append_assoc] at hfirst
    simp only [List.map_cons, readAll, Item.writeAll, List.flatMap_cons]
    exact Reader.bind_eq_ok_iff.mpr ⟨_, _, hfirst, Reader.map_eq_ok_iff.mpr ⟨_, ih h.2, rfl⟩⟩

/-- **Items are read back in the order they were written in**, and all that is left is what was put
behind them, which is too much if it is anything at all.  A time comes back as its whole second,
which is the time truncated unless that is a leap second, and a text that is empty is missing.  A
length can also be read as the number of items of a list, if there are enough octets behind it for
as many of them. -/
theorem readAll_writeAll {items : List Item} (h : ∀ i ∈ items, i.Fits) (tail : Octets) :
    Shape.readAll (items.map Item.shape) (Item.writeAll items ++ tail) =
        (.ok (items.map Item.settled), tail) ∧
      Reader.finish tail =
        (if tail = [] then .ok () else .error (.trailingData tail.length), tail) ∧
      (∀ t : Time, ¬ t.IsLeap → (Item.time t).settled = .time t.truncated) ∧
      (∀ t : Time, t.IsMade → ¬ t.IsLeap) ∧
      ∀ n itemLength, n.toNat * itemLength ≤ tail.length →
        Reader.count itemLength ((Item.length n).write ++ tail) = (.ok n.toNat, tail) := by
  refine ⟨Shape.readAll_writeAll_append h tail, ?_, fun t ↦ Item.settled_time,
    fun t ↦ Time.IsMade.not_isLeap,
    fun n itemLength hle ↦ Reader.count_eq_ok_iff.mpr ⟨n.toNat_lt, hle, rfl⟩⟩
  rw [Reader.finish]
  split <;> rfl

/-- Items of all twelve shapes, two of which do not come back as they were, and an octet more than
there should be. -/
theorem readAll_writeAll_twelve_shapes :
    let t : Time := ⟨-1, 500000000, by decide, by decide, by decide⟩
    let items : List Item :=
      [.flag true, .string "foo", .optionalString none, .uint16 0x0102, .fixed [0x78, 0x79],
        .uint8 255, .uint32 1, .uint64 2, .int32 (-3), .int64 (-4), .length 1, .time t,
        .optionalString (some "")]
    (∀ i ∈ items, i.Fits) ∧
      Shape.readAll (items.map Item.shape) (Item.writeAll items ++ [0xFF]) =
        (.ok [.flag true, .string "foo", .optionalString none, .uint16 0x0102, .fixed [0x78, 0x79],
          .uint8 255, .uint32 1, .uint64 2, .int32 (-3), .int64 (-4), .length 1,
          .time t.truncated, .optionalString none], [0xFF]) ∧
      Reader.finish [0xFF] = (.error (.trailingData 1), [0xFF]) := by
  intro t items
  have hfits : ∀ i ∈ items, i.Fits := by decide +kernel +zetaReduce
  obtain ⟨hread, hfinish, -⟩ := readAll_writeAll hfits [0xFF]
  have hsettled : items.map Item.settled =
      [.flag true, .string "foo", .optionalString none, .uint16 0x0102, .fixed [0x78, 0x79],
        .uint8 255, .uint32 1, .uint64 2, .int32 (-3), .int64 (-4), .length 1,
        .time t.truncated, .optionalString none] := by
    decide +kernel +zetaReduce
  exact ⟨hfits, hsettled ▸ hread, hfinish⟩

end Transfer

end Rpki
