/-!
# Octet strings

Everything this library reads or writes is a list of octets.  A list rather than an array, because
every reader here takes its octets off the front and hands on the rest: a property of a reader is
then an induction on the list it reads, and the octets left over are part of its result instead of
an index into a buffer.

Numbers come in both byte orders.  `Octets.bigEndian` and `Octets.littleEndian` are the values of a
string, `Octets.ofBigEndian` and `Octets.ofLittleEndian` write a number in a given width.  Text
travels as UTF-8, and `Octets.toString?` accepts exactly what `Octets.ofString` produces.

Where the number of octets matters, `FixedOctets` has it in the type.  `FixedOctets.take?` is how
they are read: it is the one place where a string is cut in two by a length that came from outside.
-/

set_option autoImplicit false

namespace Rpki

/-- A string of octets. -/
abbrev Octets := List UInt8

namespace Octets

/-! ## Numbers -/

/-- The number whose digits to base 256, most significant first, are the octets. -/
def bigEndian : Octets → Nat
  | [] => 0
  | b :: rest => b.toNat * Nat.pow 256 rest.length + bigEndian rest

/-- The last `width` digits to base 256 of `n`, most significant first. -/
def ofBigEndian : Nat → Nat → Octets
  | 0, _ => []
  | width + 1, n => UInt8.ofNat (n / Nat.pow 256 width) :: ofBigEndian width n

theorem length_ofBigEndian (width n : Nat) : (ofBigEndian width n).length = width := by
  induction width with
  | zero => rfl
  | succ width ih => simp [ofBigEndian, ih]

/-- The number whose digits to base 256, least significant first, are the octets. -/
def littleEndian : Octets → Nat
  | [] => 0
  | b :: rest => b.toNat + 256 * littleEndian rest

/-- The last `width` digits to base 256 of `n`, least significant first. -/
def ofLittleEndian : Nat → Nat → Octets
  | 0, _ => []
  | width + 1, n => UInt8.ofNat n :: ofLittleEndian width (n / 256)

theorem length_ofLittleEndian (width n : Nat) : (ofLittleEndian width n).length = width := by
  induction width generalizing n with
  | zero => rfl
  | succ width ih => simp [ofLittleEndian, ih]

/-- The octets without the zeros in front, which carry no value in a big-endian number. -/
def significant (o : Octets) : Octets := o.dropWhile (· == 0)

/-! ## Text -/

/-- The UTF-8 form of a text. -/
def ofString (s : String) : Octets := s.toUTF8.data.toList

/-- The text whose UTF-8 form the octets are, if there is one. -/
def toString? (o : Octets) : Option String := String.fromUTF8? ⟨o.toArray⟩

/-- Every octet as the character with its number, which reads ASCII text. -/
def ascii (o : Octets) : String := String.ofList (o.map fun b ↦ Char.ofNat b.toNat)

end Octets

/-! ## Octet strings of a fixed length -/

/-- Octet strings of length `n`. -/
abbrev FixedOctets (n : Nat) := { o : Octets // o.length = n }

namespace FixedOctets

/-- The octets as a string of length `n`, if that is their length. -/
def ofOctets? {n : Nat} (o : Octets) : Option (FixedOctets n) :=
  if h : o.length = n then some ⟨o, h⟩ else none

/-- Takes `n` octets off the front, if there are as many.  It looks at no others, so taking a long
string apart costs no more than its length. -/
def take? (n : Nat) (o : Octets) : Option (FixedOctets n × Octets) :=
  let front := o.take n
  if h : front.length = n then some (⟨front, h⟩, o.drop n) else none

theorem take?_eq_some_iff {n : Nat} {o rest : Octets} {front : FixedOctets n} :
    take? n o = some (front, rest) ↔ o = front.val ++ rest := by
  constructor
  · intro h
    simp only [take?, Option.dite_none_right_eq_some, Option.some.injEq, Prod.mk.injEq] at h
    obtain ⟨_, rfl, rfl⟩ := h
    exact (List.take_append_drop n o).symm
  · rintro rfl
    simp [take?, front.property]

theorem take?_eq_none_iff {n : Nat} {o : Octets} : take? n o = none ↔ o.length < n := by
  simp only [take?, List.length_take]
  split
  · simp; omega
  · simp; omega

/-- Fills up with zeros in front.  The bound is asked for, since without it octets would have to
be lost. -/
def padLeft (n : Nat) (o : Octets) (h : o.length ≤ n) : FixedOctets n :=
  ⟨List.replicate (n - o.length) 0 ++ o, by simp; omega⟩

/-- Fills up with zeros behind. -/
def padRight (n : Nat) (o : Octets) (h : o.length ≤ n) : FixedOctets n :=
  ⟨o ++ List.replicate (n - o.length) 0, by simp; omega⟩

end FixedOctets

end Rpki
