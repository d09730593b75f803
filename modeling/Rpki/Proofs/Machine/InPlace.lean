import Rpki.Proofs.Hex
import Rpki.Proofs.Machine.Text

/-!
# Writing digits in place

The digits of octets can be written into a buffer that the caller owns.  What there is to know about
that is not only which text comes back but what has become of the buffer, also if the machine stops.
So a buffer has a record here of the positions at which something has been stored, and a computation
`Machine.InPlace` on it ends with a buffer even where it ends with no result.

The loop takes two octets of the place for digits at a time.  `Machine.InPlace.writePairs_eq` is its
invariant: after any number of rounds all that has been stored is one string from the start on, with
each position in the record once.  Then the octets are taken for a text without a check, which goes
well only for UTF-8.  Here they are checked, and the machine would stop if they were anything else.

`Hex.encoders_agree` puts this together with the two encoders of the library.
-/

set_option autoImplicit false

namespace Rpki

/-! ## The buffer afterwards -/

namespace Hex

/-- What is behind the digits stays as it is. -/
theorem drop_overwrite (src dest : Octets) :
    (overwrite src dest).drop (2 * src.length) = dest.drop (2 * src.length) := by
  fun_induction overwrite src dest with
  | case1 b src c d dest ih => simpa [Nat.mul_succ] using ih
  | case2 src dest h => rfl

theorem overwrite_eq {src dest : Octets} (h : 2 * src.length ≤ dest.length) :
    overwrite src dest = src.flatMap pair ++ dest.drop (2 * src.length) := by
  rw [← List.take_append_drop (2 * src.length) (overwrite src dest), Machine.take_overwrite h,
    drop_overwrite]

theorem encodeInto_eq_some {src dest : Octets} (h : 2 * src.length ≤ dest.length) :
    encodeInto src dest = some (encode src, src.flatMap pair ++ dest.drop (2 * src.length)) := by
  rw [encodeInto, if_pos h]
  dsimp only
  rw [Machine.take_overwrite h, overwrite_eq h]
  rfl

theorem encodeInto_eq_none {src dest : Octets} (h : dest.length < 2 * src.length) :
    encodeInto src dest = none :=
  if_neg (Nat.not_le.mpr h)

end Hex

namespace Machine

/-! ## Buffers -/

/-- A buffer, and the positions at which an octet has been stored in it, in the order of time. -/
structure Buffer where
  octets : Octets
  stored : List Nat
deriving DecidableEq

namespace Buffer

/-- The buffer after octets have been stored from a position on, one after the other. -/
def store (b : Buffer) (start : Nat) (o : Octets) : Buffer :=
  ⟨b.octets.take start ++ o ++ b.octets.drop (start + o.length),
    b.stored ++ List.range' start o.length⟩

theorem store_nil (b : Buffer) (start : Nat) : b.store start [] = b := by
  simp [store]

theorem store_front (b : Buffer) (o : Octets) :
    b.store 0 o = ⟨o ++ b.octets.drop o.length, b.stored ++ List.range o.length⟩ := by
  rw [store, List.take_zero, List.nil_append, Nat.zero_add, List.range_eq_range']

/-- No buffer becomes longer or shorter if it has room for what is stored. -/
theorem length_store {b : Buffer} {start : Nat} {o : Octets}
    (h : start + o.length ≤ b.octets.length) :
    (b.store start o).octets.length = b.octets.length := by
  simp only [store, List.length_append, List.length_take, List.length_drop]
  omega

/-- Octets that are stored behind others are stored together with them. -/
theorem store_store {b : Buffer} {start : Nat} (h : start ≤ b.octets.length) (p q : Octets) :
    (b.store start p).store (start + p.length) q = b.store start (p ++ q) := by
  have hfront : (b.octets.take start ++ p).length = start + p.length := by
    rw [List.length_append, List.length_take_of_le h]
  have htake : (b.octets.take start ++ p ++ b.octets.drop (start + p.length)).take
      (start + p.length) = b.octets.take start ++ p := List.take_left' hfront
  have hdrop : (b.octets.take start ++ p ++ b.octets.drop (start + p.length)).drop
      (start + p.length + q.length) = b.octets.drop (start + (p ++ q).length) := by
    rw [← List.drop_drop, List.drop_left' hfront, List.drop_drop, List.length_append,
      Nat.add_assoc]
  simp only [store, htake, hdrop]
  simp only [List.append_assoc, List.length_append, List.range'_append_1]

end Buffer

/-! ## Computations on a buffer -/

/-- What is done on a buffer.  A machine that stops leaves the buffer as it is then. -/
def InPlace (α : Type) := Buffer → Option α × Buffer

namespace InPlace

variable {α β : Type}

instance : Monad InPlace where
  pure a := fun b ↦ (some a, b)
  bind c next := fun b ↦
    match c b with
    | (some a, b) => next a b
    | (none, b) => (none, b)

/-- The result of something that has nothing to do with the buffer. -/
def operation (x : Option α) : InPlace α := fun b ↦ (x, b)

/-- The octets between two positions of the buffer. -/
def place (start stop : Nat) : InPlace Octets := fun b ↦ (slice b.octets start stop, b)

/-- Stores octets from a position of the buffer on. -/
def store (start : Nat) (o : Octets) : InPlace Unit := fun b ↦ (some (), b.store start o)

/-- Copies octets to the place between two positions of the buffer, of which there have to be as
many. -/
def copyTo (start stop : Nat) (o : Octets) : InPlace Unit := do
  let chunk ← place start stop
  let o ← operation (copy chunk o)
  store start o

/-- Copies the digits of the octets to the place up to `stop`, each two to the next chunk of two.
The end of either the octets or the place ends the copying. -/
def writePairs (stop : Nat) : Nat → Octets → InPlace Unit
  | _, [] => return ()
  | start, b :: src => do
    if stop ≤ start then return ()
    else
      let digits ← operation (pair b)
      copyTo start (min (start + 2) stop) digits
      writePairs stop (start + 2) src

/-- Writes the digits of `src` to the front of the buffer, and takes what is there for a text. -/
def encode (src : Octets) : InPlace String := do
  let stop ← operation (mul 64 src.length 2)
  let _ ← place 0 stop
  writePairs stop 0 src
  let written ← place 0 stop
  operation written.toString?

/-! ### Steps -/

variable {b b' : Buffer} {c : InPlace α} {next : α → InPlace β}

theorem bind_apply : (c >>= next) b =
    match c b with
    | (some a, b) => next a b
    | (none, b) => (none, b) :=
  rfl

theorem bind_of_some {a : α} (h : c b = (some a, b')) : (c >>= next) b = next a b' := by
  rw [bind_apply, h]

theorem bind_of_none (h : c b = (none, b')) : (c >>= next) b = (none, b') := by
  rw [bind_apply, h]

theorem operation_bind {x : Option α} {a : α} (h : x = some a) :
    (operation x >>= next) b = next a b :=
  bind_of_some (by rw [operation, h])

theorem place_front {stop : Nat} (h : stop ≤ b.octets.length) :
    place 0 stop b = (some (b.octets.take stop), b) := by
  rw [place, slice_front h]

theorem copyTo_eq {start stop : Nat} {o : Octets} (h : stop = start + o.length)
    (hle : stop ≤ b.octets.length) : copyTo start stop o b = (some (), b.store start o) := by
  have hplace : place start stop b = (some ((b.octets.drop start).take (stop - start)), b) := by
    rw [place, slice_eq_some (by omega) hle]
  have hlength : ((b.octets.drop start).take (stop - start)).length = o.length := by
    rw [List.length_take, List.length_drop]
    omega
  rw [copyTo, bind_of_some hplace, operation_bind (copy_eq_some hlength), store]

/-! ### The loop -/

/-- **The digits of all octets are stored**, each of them once and in their order. -/
theorem writePairs_eq {stop start : Nat} {src : Octets} (h : stop = start + 2 * src.length)
    (hle : stop ≤ b.octets.length) :
    writePairs stop start src b = (some (), b.store start (src.flatMap Hex.pair)) := by
  induction src generalizing start b with
  | nil =>
    rw [List.flatMap_nil, Buffer.store_nil]
    rfl
  | cons octet src ih =>
    rw [List.length_cons] at h
    -- The first round stores one pair at `start`, and the others go on right behind it.
    have hpair : (Hex.pair octet).length = 2 := rfl
    have hcopy : copyTo start (min (start + 2) stop) (Hex.pair octet) b =
        (some (), b.store start (Hex.pair octet)) := copyTo_eq (by omega) (by omega)
    have hlength : (b.store start (Hex.pair octet)).octets.length = b.octets.length :=
      Buffer.length_store (by omega)
    have hrest : writePairs stop (start + 2) src (b.store start (Hex.pair octet)) =
        (some (), (b.store start (Hex.pair octet)).store (start + 2) (src.flatMap Hex.pair)) :=
      ih (by omega) (by omega)
    rw [writePairs, if_neg (by omega), operation_bind (pair_eq octet), bind_of_some hcopy, hrest,
      List.flatMap_cons, ← Buffer.store_store (by omega), hpair]

/-! ### The encoder -/

/-- If there is no place for all digits, the machine stops before it has stored any. -/
theorem encode_of_lt {src : Octets} (h : b.octets.length < 2 * src.length) :
    encode src b = (none, b) := by
  rw [encode]
  by_cases hmul : src.length * 2 < 2 ^ 64
  · have hplace : place 0 (src.length * 2) b = (none, b) := by
      rw [place, slice, if_neg (by omega)]
    rw [operation_bind (mul_eq_some hmul), bind_of_none hplace]
  · exact bind_of_none (by rw [operation, mul, if_neg hmul])

/-- If there is, the digits are stored in front and are the text. -/
theorem encode_of_le {src : Octets} (h : 2 * src.length ≤ b.octets.length)
    (hlt : b.octets.length < 2 ^ 64) :
    encode src b = (some (Hex.encode src), b.store 0 (src.flatMap Hex.pair)) := by
  have hdigits : (src.flatMap Hex.pair).length = src.length * 2 := by
    rw [Hex.length_flatMap_pair, Nat.mul_comm]
  have hloop : writePairs (src.length * 2) 0 src b =
      (some (), b.store 0 (src.flatMap Hex.pair)) := writePairs_eq (by omega) (by omega)
  have hlength : (b.store 0 (src.flatMap Hex.pair)).octets.length = b.octets.length :=
    Buffer.length_store (by omega)
  have hfront : (b.store 0 (src.flatMap Hex.pair)).octets.take (src.length * 2) =
      src.flatMap Hex.pair := by
    rw [Buffer.store_front, List.take_left' hdigits]
  rw [encode, operation_bind (mul_eq_some (by omega)), bind_of_some (place_front (by omega)),
    bind_of_some hloop, bind_of_some (place_front (by omega)), hfront, operation,
    toString?_flatMap_pair]

/-- Whoever looks at the text only cannot tell whether the buffer was a copy. -/
theorem encode_fst {src : Octets} (hlt : b.octets.length < 2 ^ 64) :
    (encode src b).1 = Machine.encode src b.octets := by
  rw [encode_eq_encodeInto hlt]
  by_cases hle : 2 * src.length ≤ b.octets.length
  · rw [encode_of_le hle hlt, Hex.encodeInto_eq_some hle, Option.map_some]
  · have hshort := Nat.lt_of_not_le hle
    rw [encode_of_lt hshort, Hex.encodeInto_eq_none hshort, Option.map_none]

end InPlace

end Machine

namespace Hex

/-! ## The encoders -/

/-- **The encoder that works in place agrees with the one that does not.**  A text is made of upper
case digits, and its pairs are the octets.  If the buffer has room for the digits, they are stored
at its first positions, at each once, are UTF-8, and come back as the same text, with everything
behind them as it was.  If it has not, the machine stops and nothing has been stored.  No buffer in
memory is too long for its length to be a number of 64 bits. -/
theorem encoders_agree (src dest : Octets) :
    (∀ c ∈ (encode src).toList, c ∈ upperDigits) ∧ decode? (encode src) = some src ∧
      (2 * src.length ≤ dest.length →
        ∃ written, encodeInto src dest = some (encode src, written) ∧
          Octets.toString? (written.take (2 * src.length)) = some (encode src) ∧
          written.drop (2 * src.length) = dest.drop (2 * src.length) ∧
          (dest.length < 2 ^ 64 → Machine.InPlace.encode src ⟨dest, []⟩ =
            (some (encode src), ⟨written, List.range (2 * src.length)⟩))) ∧
      (dest.length < 2 * src.length →
        encodeInto src dest = none ∧
          Machine.InPlace.encode src ⟨dest, []⟩ = (none, ⟨dest, []⟩)) := by
  refine ⟨fun c ↦ mem_upperDigits_of_mem_encode, decode?_encode src, fun hle ↦ ?_, fun hlt ↦
    ⟨encodeInto_eq_none hlt, Machine.InPlace.encode_of_lt hlt⟩⟩
  have hdigits := length_flatMap_pair src
  refine ⟨_, encodeInto_eq_some hle, ?_, List.drop_left' hdigits, fun hlt ↦ ?_⟩
  · rw [List.take_left' hdigits, Machine.toString?_flatMap_pair]
  · rw [Machine.InPlace.encode_of_le hle hlt, Machine.Buffer.store_front, hdigits]
    rfl

/-- Three octets in a buffer of eight, and in one of five, which is one too few. -/
theorem encoders_agree_three_octets :
    let src : Octets := [0x00, 0xA5, 0xFF]
    let dest : Octets := List.replicate 8 0x2E
    let short : Octets := List.replicate 5 0x2E
    let digits : Octets := [0x30, 0x30, 0x41, 0x35, 0x46, 0x46]
    (2 * src.length ≤ dest.length ∧ dest.length < 2 ^ 64 ∧
        encodeInto src dest = some ("00A5FF", digits ++ [0x2E, 0x2E]) ∧
        Machine.InPlace.encode src ⟨dest, []⟩ =
          (some "00A5FF", ⟨digits ++ [0x2E, 0x2E], [0, 1, 2, 3, 4, 5]⟩)) ∧
      short.length < 2 * src.length ∧ encodeInto src short = none ∧
        Machine.InPlace.encode src ⟨short, []⟩ = (none, ⟨short, []⟩) := by
  intro src dest short digits
  have htext : encode src = "00A5FF" := by decide +kernel +zetaReduce
  have hinto : encodeInto src dest = some ("00A5FF", digits ++ [0x2E, 0x2E]) := by
    decide +kernel +zetaReduce
  have hroom : 2 * src.length ≤ dest.length := by decide
  have hlt : dest.length < 2 ^ 64 := by decide
  have hlack : short.length < 2 * src.length := by decide
  obtain ⟨-, -, hfits, -⟩ := encoders_agree src dest
  obtain ⟨-, -, -, hshort⟩ := encoders_agree src short
  obtain ⟨written, hsome, -, -, hrun⟩ := hfits hroom
  obtain rfl : written = digits ++ [0x2E, 0x2E] :=
    (Prod.mk.inj (Option.some.inj (hsome.symm.trans hinto))).2
  obtain ⟨hnone, hstops⟩ := hshort hlack
  exact ⟨⟨hroom, hlt, hinto, (hrun hlt).trans (by rw [htext]; rfl)⟩, hlack, hnone, hstops⟩

end Hex

end Rpki
