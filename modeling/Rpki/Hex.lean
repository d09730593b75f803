import Rpki.Octets

/-!
# Hexadecimal text

Digests, key identifiers and manifest numbers are shown as pairs of upper case hexadecimal digits.
There are two encoders.  `Hex.encode` builds a new text; `Hex.encodeInto` writes the digits to the
front of a buffer the caller owns, and refuses a buffer that is too short before it has touched it.
`Hex.decode?` reads digits of either case back.
-/

set_option autoImplicit false

namespace Rpki

namespace Hex

/-- The upper case digit for a number below 16, as an ASCII octet. -/
def digit (n : UInt8) : UInt8 := if n < 10 then 0x30 + n else 0x37 + n

/-- The two digits of an octet, high half first. -/
def pair (b : UInt8) : Octets := [digit (b >>> 4), digit (b &&& 0x0F)]

/-- The digits of all octets in order. -/
def encode (o : Octets) : String := Octets.ascii (o.flatMap pair)

/-- The buffer with the digits of `src` written over its front, two octets at a time.  It stops
where either of the two runs out, so it never makes the buffer longer. -/
def overwrite : Octets → Octets → Octets
  | b :: src, _ :: _ :: dest => digit (b >>> 4) :: digit (b &&& 0x0F) :: overwrite src dest
  | _, dest => dest

/-- Writes the digits of `src` to the front of `dest`.  The answer is the text written and the
whole buffer afterwards; there is none if the buffer has less than two octets for each of `src`. -/
def encodeInto (src dest : Octets) : Option (String × Octets) :=
  if 2 * src.length ≤ dest.length then
    let written := overwrite src dest
    some (Octets.ascii (written.take (2 * src.length)), written)
  else
    none

/-! ## Reading digits -/

/-- The value of a digit of either case. -/
def digitValue? (c : Char) : Option Nat :=
  if '0' ≤ c ∧ c ≤ '9' then some (c.toNat - 0x30)
  else if 'A' ≤ c ∧ c ≤ 'F' then some (c.toNat - 0x37)
  else if 'a' ≤ c ∧ c ≤ 'f' then some (c.toNat - 0x57)
  else none

/-- The octets whose digit pairs the characters are. -/
def decodeChars? : List Char → Option Octets
  | [] => some []
  | high :: low :: rest => do
    let h ← digitValue? high
    let l ← digitValue? low
    let o ← decodeChars? rest
    return UInt8.ofNat (16 * h + l) :: o
  | [_] => none

/-- The octets whose digit pairs the text is. -/
def decode? (s : String) : Option Octets := decodeChars? s.toList

end Hex

/-! ## Key identifiers -/

namespace KeyIdentifier

/-- Puts a colon in front of every second character but the first. -/
def separated : List Char → List Char
  | a :: b :: c :: rest => a :: b :: ':' :: separated (c :: rest)
  | rest => rest

/-- The form a hexadecimal key identifier is shown in, `AB:CD:EF`.  The text is taken as it is, so
an odd character at the end stays on its own. -/
def pretty (hex : String) : String := String.ofList (separated hex.toList)

end KeyIdentifier

end Rpki
