import Rpki.Transfer.Reader
import Rpki.Transfer.Writer

/-!
# Items of the transfer form

Every object is written as a sequence of items of twelve shapes.  `Item.write` and `Shape.read` are
the writers and readers of `Transfer/Writer.lean` and `Transfer/Reader.lean` under one name each, so
that a sequence of items of any shapes can be written and read as a whole.

Two items do not come back as they were.  A time loses its fraction, and a text that may be missing
is missing if it is empty; `Item.settled` is what comes back.
-/

set_option autoImplicit false

namespace Rpki

namespace Transfer

/-- A value that can be written. -/
inductive Item
  | uint8 (n : UInt8)
  | uint16 (n : UInt16)
  | uint32 (n : UInt32)
  | uint64 (n : UInt64)
  | int32 (n : Int32)
  | int64 (n : Int64)
  /-- The length of a list. -/
  | length (n : UInt64)
  | flag (b : Bool)
  /-- Octets without their length, which the reader has to know. -/
  | fixed (o : Octets)
  | string (s : String)
  | optionalString (s : Option String)
  | time (t : Time)
deriving DecidableEq

/-- What a reader has to know of an item. -/
inductive Shape
  | uint8
  | uint16
  | uint32
  | uint64
  | int32
  | int64
  | length
  | flag
  /-- So many octets. -/
  | fixed (n : Nat)
  | string
  | optionalString
  | time
deriving DecidableEq

namespace Item

/-- The shape of an item. -/
def shape : Item → Shape
  | uint8 _ => .uint8
  | uint16 _ => .uint16
  | uint32 _ => .uint32
  | uint64 _ => .uint64
  | int32 _ => .int32
  | int64 _ => .int64
  | length _ => .length
  | flag _ => .flag
  | fixed o => .fixed o.length
  | string _ => .string
  | optionalString _ => .optionalString
  | time _ => .time

/-- The octets of an item. -/
def write : Item → Octets
  | uint8 n => Writer.uint8 n
  | uint16 n => Writer.uint16 n
  | uint32 n => Writer.uint32 n
  | uint64 n => Writer.uint64 n
  | int32 n => Writer.int32 n
  | int64 n => Writer.int64 n
  | length n => Writer.length n.toNat
  | flag b => Writer.flag b
  | fixed o => o
  | string s => Writer.string s
  | optionalString s => Writer.optionalString s
  | time t => Writer.time t

/-- The item that is read back. -/
def settled : Item → Item
  | optionalString (some "") => optionalString none
  | time t => time t.wholeSecond
  | i => i

end Item

/-- Takes an item. -/
def Shape.read : Shape → Reader Item
  | uint8 => do return .uint8 (← Reader.uint8)
  | uint16 => do return .uint16 (← Reader.uint16)
  | uint32 => do return .uint32 (← Reader.uint32)
  | uint64 => do return .uint64 (← Reader.uint64)
  | int32 => do return .int32 (← Reader.int32)
  | int64 => do return .int64 (← Reader.int64)
  | length => do return .length (← Reader.uint64)
  | flag => do return .flag (← Reader.flag)
  | fixed n => do return .fixed (← Reader.fixed n).val
  | string => do return .string (← Reader.string)
  | optionalString => do return .optionalString (← Reader.optionalString)
  | time => do return .time (← Reader.time)

end Transfer

end Rpki
