import Rpki.Decimal
import Rpki.Hex
import Rpki.Text.Split

/-!
# IP addresses

An address is four octets or sixteen.  Its text is the usual one: four decimal numbers with dots,
or eight groups of hexadecimal digits with colons where the longest run of zero groups is left out.
An IPv6 address that stands for an IPv4 address ends in the text of that.

There is one text for each address that is written.  When addresses are read, the sixteen octets
may be spelt in any of the accepted ways: zeros in front of a group, a run that is not the longest,
an IPv4 ending wherever there is room for one.
-/

set_option autoImplicit false

namespace Rpki

/-- An IP address of either family. -/
inductive IpAddress
  | v4 (octets : FixedOctets 4)
  | v6 (octets : FixedOctets 16)
deriving DecidableEq

namespace IpAddress

/-! ## Writing -/

/-- The octets as decimal numbers with dots between them. -/
def dottedText (o : Octets) : String := ".".intercalate (o.map toString)

/-- The octets two by two, as numbers. -/
def groups : Octets → List Nat
  | a :: b :: rest => (256 * a.toNat + b.toNat) :: groups rest
  | _ => []

/-- The groups as hexadecimal numbers with colons between them. -/
def groupsText (gs : List Nat) : String :=
  ":".intercalate (gs.map fun g ↦ String.ofList (Nat.toDigits 16 g))

/-- Where the longest run of zeros starts and how long it is.  Of two that are equally long it is
the first. -/
def longestZeroRun : List Nat → Nat × Nat
  | [] => (0, 0)
  | g :: gs =>
    let here := ((g :: gs).takeWhile (· == 0)).length
    let (start, length) := longestZeroRun gs
    if length ≤ here then (0, here) else (start + 1, length)

/-- The groups with the longest run of zeros left out, if there are at least two of them. -/
def shortenedText (gs : List Nat) : String :=
  let (start, length) := longestZeroRun gs
  if 2 ≤ length then groupsText (gs.take start) ++ "::" ++ groupsText (gs.drop (start + length))
  else groupsText gs

/-- What an IPv6 address starts with that stands for an IPv4 address. -/
def mappedPrefix : Octets := List.replicate 10 0 ++ [0xFF, 0xFF]

/-- The text of an address. -/
def text : IpAddress → String
  | v4 o => dottedText o.val
  | v6 o =>
    if o.val.take 12 = mappedPrefix then "::ffff:" ++ dottedText (o.val.drop 12)
    else shortenedText (groups o.val)

instance : ToString IpAddress := ⟨text⟩

/-! ## Reading -/

/-- The octet that a decimal number without leading zeros is. -/
def decimalOctet? (cs : List Char) : Option UInt8 :=
  if cs ≠ [] ∧ cs.length ≤ 3 ∧ cs.all Decimal.isDigit ∧ (cs.head? = some '0' → cs.length = 1) ∧
      Decimal.value cs < 256 then
    some (UInt8.ofNat (Decimal.value cs))
  else
    none

/-- The octets that four decimal numbers with dots between them are. -/
def readDotted? (cs : List Char) : Option (FixedOctets 4) := do
  let o ← (Text.split '.' cs).mapM decimalOctet?
  FixedOctets.ofOctets? o

/-- The two octets that one to four hexadecimal digits are. -/
def readGroup? (cs : List Char) : Option Octets :=
  if cs ≠ [] ∧ cs.length ≤ 4 then do
    let digits ← cs.mapM Hex.digitValue?
    some (Octets.ofBigEndian 2 (digits.foldl (fun n d ↦ 16 * n + d) 0))
  else
    none

/-- The octets of the parts between colons.  The last of them may be an IPv4 address. -/
def readParts? : List (List Char) → Option Octets
  | [] => some []
  | [last] => readGroup? last <|> (readDotted? last).map (·.val)
  | part :: parts => do
    let o ← readGroup? part
    let os ← readParts? parts
    return o ++ os

/-- The octets of groups with colons between them, of which there may be none. -/
def readGroups? (cs : List Char) : Option Octets :=
  if cs = [] then some [] else readParts? (Text.split ':' cs)

/-- The octets of groups that end in a group and not in an IPv4 address. -/
def readPlainGroups? (cs : List Char) : Option Octets :=
  if '.' ∈ cs then none else readGroups? cs

/-- The sixteen octets of an IPv6 address.  Two colons in a row, which may come once, stand for at
least one group of zeros. -/
def readColons? (cs : List Char) : Option (FixedOctets 16) :=
  match Text.splitAtDouble? ':' cs with
  | none => do
    let o ← readGroups? cs
    FixedOctets.ofOctets? o
  | some (front, back) => do
    let front ← readPlainGroups? front
    let back ← readGroups? back
    if front.length + back.length ≤ 14 then
      FixedOctets.ofOctets?
        (front ++ List.replicate (16 - (front.length + back.length)) 0 ++ back)
    else
      none

/-- The address with the given text. -/
def ofText? (s : String) : Option IpAddress :=
  (readDotted? s.toList).map v4 <|> (readColons? s.toList).map v6

end IpAddress

end Rpki
