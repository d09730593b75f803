import Rpki.Octets

/-!
# SHA-256

The one digest algorithm of manifests.  A `Sha256.Context` takes its message in parts of any size,
and the digest depends only on the parts joined together: what a part leaves over of a block waits
in `pending` for the next.
-/

set_option autoImplicit false

namespace Rpki

/-- A SHA-256 digest. -/
abbrev Digest := FixedOctets 32

namespace Sha256

/-! ## The compression function -/

/-- The eight working words. -/
structure State where
  a : UInt32
  b : UInt32
  c : UInt32
  d : UInt32
  e : UInt32
  f : UInt32
  g : UInt32
  h : UInt32

/-- The first 32 bits of the fractions of the square roots of the first eight primes. -/
def initial : State :=
  ⟨0x6a09e667, 0xbb67ae85, 0x3c6ef372, 0xa54ff53a, 0x510e527f, 0x9b05688c, 0x1f83d9ab, 0x5be0cd19⟩

/-- The first 32 bits of the fractions of the cube roots of the first 64 primes. -/
def roundConstants : List UInt32 :=
  [0x428a2f98, 0x71374491, 0xb5c0fbcf, 0xe9b5dba5, 0x3956c25b, 0x59f111f1, 0x923f82a4, 0xab1c5ed5,
   0xd807aa98, 0x12835b01, 0x243185be, 0x550c7dc3, 0x72be5d74, 0x80deb1fe, 0x9bdc06a7, 0xc19bf174,
   0xe49b69c1, 0xefbe4786, 0x0fc19dc6, 0x240ca1cc, 0x2de92c6f, 0x4a7484aa, 0x5cb0a9dc, 0x76f988da,
   0x983e5152, 0xa831c66d, 0xb00327c8, 0xbf597fc7, 0xc6e00bf3, 0xd5a79147, 0x06ca6351, 0x14292967,
   0x27b70a85, 0x2e1b2138, 0x4d2c6dfc, 0x53380d13, 0x650a7354, 0x766a0abb, 0x81c2c92e, 0x92722c85,
   0xa2bfe8a1, 0xa81a664b, 0xc24b8b70, 0xc76c51a3, 0xd192e819, 0xd6990624, 0xf40e3585, 0x106aa070,
   0x19a4c116, 0x1e376c08, 0x2748774c, 0x34b0bcb5, 0x391c0cb3, 0x4ed8aa4a, 0x5b9cca4f, 0x682e6ff3,
   0x748f82ee, 0x78a5636f, 0x84c87814, 0x8cc70208, 0x90befffa, 0xa4506ceb, 0xbef9a3f7, 0xc67178f2]

/-- Rotates a word to the right by less than 32 bits. -/
def rotateRight (x : UInt32) (n : UInt32) : UInt32 := (x >>> n) ||| (x <<< (32 - n))

/-- The big-endian words of a block. -/
def words : Octets → List UInt32
  | a :: b :: c :: d :: rest =>
    ((a.toUInt32 <<< 24) ||| (b.toUInt32 <<< 16) ||| (c.toUInt32 <<< 8) ||| d.toUInt32) ::
      words rest
  | _ => []

/-- Adds `n` words to a schedule, which is kept last word first. -/
def extend : Nat → List UInt32 → List UInt32
  | 0, ws => ws
  | n + 1, ws =>
    let w2 := ws.getD 1 0
    let w15 := ws.getD 14 0
    let s0 := rotateRight w15 7 ^^^ rotateRight w15 18 ^^^ (w15 >>> 3)
    let s1 := rotateRight w2 17 ^^^ rotateRight w2 19 ^^^ (w2 >>> 10)
    extend n ((ws.getD 15 0 + s0 + ws.getD 6 0 + s1) :: ws)

/-- One round with the sum of its constant and its schedule word. -/
def round (s : State) (kw : UInt32) : State :=
  let s1 := rotateRight s.e 6 ^^^ rotateRight s.e 11 ^^^ rotateRight s.e 25
  let choice := (s.e &&& s.f) ^^^ ((~~~ s.e) &&& s.g)
  let t1 := s.h + s1 + choice + kw
  let s0 := rotateRight s.a 2 ^^^ rotateRight s.a 13 ^^^ rotateRight s.a 22
  let majority := (s.a &&& s.b) ^^^ (s.a &&& s.c) ^^^ (s.b &&& s.c)
  ⟨t1 + (s0 + majority), s.a, s.b, s.c, s.d + t1, s.e, s.f, s.g⟩

/-- Takes a block of 64 octets into the state. -/
def compress (s : State) (block : Octets) : State :=
  let schedule := (extend 48 (words block).reverse).reverse
  let t := (List.zipWith (· + ·) roundConstants schedule).foldl round s
  ⟨s.a + t.a, s.b + t.b, s.c + t.c, s.d + t.d, s.e + t.e, s.f + t.f, s.g + t.g, s.h + t.h⟩

/-- Takes the next `n` blocks into the state and returns the octets behind them. -/
def absorbBlocks : Nat → State → Octets → State × Octets
  | 0, s, o => (s, o)
  | n + 1, s, o => absorbBlocks n (compress s (o.take 64)) (o.drop 64)

/-- Takes all whole blocks in front into the state and returns what is left, less than a block. -/
def absorb (s : State) (o : Octets) : State × Octets := absorbBlocks (o.length / 64) s o

/-! ## Messages in parts -/

/-- A digest calculation under way. -/
structure Context where
  /-- The state after all whole blocks so far. -/
  state : State
  /-- The octets since then. -/
  pending : Octets
  /-- The number of octets taken in so far. -/
  length : Nat

/-- The calculation before its first octet. -/
def Context.start : Context := ⟨initial, [], 0⟩

/-- Takes in another part of the message. -/
def Context.update (c : Context) (part : Octets) : Context :=
  let (state, pending) := absorb c.state (c.pending ++ part)
  ⟨state, pending, c.length + part.length⟩

/-- What is put behind a message of `length` octets: a one bit, zeros up to eight octets before the
end of a block, and the length in bits. -/
def padding (length : Nat) : Octets :=
  0x80 :: (List.replicate ((119 - length % 64) % 64) 0 ++ Octets.ofBigEndian 8 (8 * length))

/-- The eight words of the state in order. -/
def State.toDigest (s : State) : Digest :=
  ⟨[s.a, s.b, s.c, s.d, s.e, s.f, s.g, s.h].flatMap fun w ↦ Octets.ofBigEndian 4 w.toNat, by
    simp [Octets.length_ofBigEndian]⟩

/-- The digest of everything taken in. -/
def Context.finish (c : Context) : Digest :=
  (absorb c.state (c.pending ++ padding c.length)).1.toDigest

/-- The digest of a message. -/
def digest (message : Octets) : Digest := (Context.start.update message).finish

end Sha256

end Rpki
