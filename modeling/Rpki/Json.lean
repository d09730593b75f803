import Rpki.Octets
import Rpki.Time.Internet
import Rpki.Transfer.Error

/-!
# JSON values

Objects can be written as JSON values and read back.  A structure is a JSON object with a member
for each field, and it may also be an array of all fields in order.  Octets are arrays of numbers, a
missing text is `null`.

The text of JSON is no concern here.  Only a number written as an integer counts as one, so `1.0` is
a value of its own kind.
-/

set_option autoImplicit false

namespace Rpki

/-- A JSON value. -/
inductive Json
  | null
  | bool (b : Bool)
  | integer (n : Int)
  /-- A number with a decimal point: the mantissa is to be divided by a power of ten. -/
  | decimal (mantissa : Int) (places : Nat)
  | string (s : String)
  | array (values : List Json)
  | object (members : List (String × Json))
deriving Inhabited

/-- Why a JSON value is not an object of the repository. -/
inductive JsonError
  /-- It does not have the members, or one of them is not what it should be. -/
  | shape
  /-- It has, and the object they describe breaks a rule. -/
  | rule (broken : BrokenRule)
deriving DecidableEq

namespace Json

/-! ## Writing -/

/-- Octets as an array of numbers. -/
def ofOctets (o : Octets) : Json := .array (o.map fun b ↦ .integer b.toNat)

/-- A text that may be missing. -/
def ofOptional : Option String → Json
  | some s => .string s
  | none => .null

/-- A time with its fraction. -/
def ofTime (t : Time) : Json := .string (InternetTime.text t)

/-! ## Reading -/

def asBool? : Json → Option Bool
  | .bool b => some b
  | _ => none

def asString? : Json → Option String
  | .string s => some s
  | _ => none

/-- A text that may be missing. -/
def asOptional? : Json → Option (Option String)
  | .null => some none
  | .string s => some (some s)
  | _ => none

/-- A time, in any of the spellings that are read. -/
def asTime? (j : Json) : Option Time := do InternetTime.read? (← j.asString?)

/-- A number from zero up to and not including `bound`. -/
def asNat? (bound : Nat) : Json → Option Nat
  | .integer n => if 0 ≤ n ∧ n < bound then some n.toNat else none
  | _ => none

def asUInt8? (j : Json) : Option UInt8 := (j.asNat? 0x100).map UInt8.ofNat

def asUInt32? (j : Json) : Option UInt32 := (j.asNat? 0x100000000).map UInt32.ofNat

/-- An array of which every value is something. -/
def asList? {α : Type} (item? : Json → Option α) : Json → Option (List α)
  | .array values => values.mapM item?
  | _ => none

/-- An array of `n` octets. -/
def asFixed? (n : Nat) (j : Json) : Option (FixedOctets n) := do
  let o ← j.asList? asUInt8?
  FixedOctets.ofOctets? o

/-- The values of the named fields, in the order of the names.  Other members of an object are left
out; an array must have exactly one value for each name. -/
def fields? (names : List String) : Json → Option (List (Option Json))
  | .object members => some (names.map fun name ↦ members.lookup name)
  | .array values => if values.length = names.length then some (values.map some) else none
  | _ => none

end Json

end Rpki
