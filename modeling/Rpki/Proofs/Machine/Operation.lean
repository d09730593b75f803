import Mathlib.Algebra.Group.Nat.Defs
import Rpki.Error
import Rpki.Octets

/-!
# Operations that a machine can fail at

The functions of this library calculate with natural numbers and lists, where every operation has a
result.  A machine has numbers of a limited width and strings of a given length.  It cannot make a
difference negative, look behind the end of a string, or copy octets to a place of another length,
and if it is told to do so it stops.

The operations here have the result that a machine has, which is `none` if it stops.  Functions that
are made of them can be found under `Rpki.Machine`, one for each function in which a machine could
stop, and each is proved to have the same result as that function.  Since a result is not `none`,
this says that the machine never stops, whatever the input is.

A function with an error as another possible result is an `ExceptT` over them.  `Machine.Computes`
is the relation to the function that it stands for, and goes along the steps of both.
-/

set_option autoImplicit false

namespace Rpki

namespace Machine

/-! ## Numbers -/

/-- A sum that has to fit into `bits` bits. -/
def add (bits a b : Nat) : Option Nat := if a + b < 2 ^ bits then some (a + b) else none

/-- A product that has to fit into `bits` bits. -/
def mul (bits a b : Nat) : Option Nat := if a * b < 2 ^ bits then some (a * b) else none

/-- A difference that must not be negative. -/
def sub (a b : Nat) : Option Nat := if b ≤ a then some (a - b) else none

/-- The same number in `bits` bits, into which it has to fit. -/
def cast (bits n : Nat) : Option Nat := if n < 2 ^ bits then some n else none

/-- An octet shifted to the right by less than its width. -/
def shiftRight (b : UInt8) (n : Nat) : Option UInt8 :=
  if n < 8 then some (b >>> UInt8.ofNat n) else none

theorem add_eq_some {bits a b : Nat} (h : a + b < 2 ^ bits) : add bits a b = some (a + b) :=
  if_pos h

theorem mul_eq_some {bits a b : Nat} (h : a * b < 2 ^ bits) : mul bits a b = some (a * b) :=
  if_pos h

theorem sub_eq_some {a b : Nat} (h : b ≤ a) : sub a b = some (a - b) := if_pos h

theorem cast_eq_some {bits n : Nat} (h : n < 2 ^ bits) : cast bits n = some n := if_pos h

theorem shiftRight_eq_some {b : UInt8} {n : Nat} (h : n < 8) :
    shiftRight b n = some (b >>> UInt8.ofNat n) :=
  if_pos h

/-! ## Octet strings -/

/-- The octet at a position, which has to be inside. -/
def octetAt (o : Octets) (position : Nat) : Option UInt8 := o[position]?

/-- The octets from a position up to another one, which have to be in order and inside. -/
def slice (o : Octets) (start stop : Nat) : Option Octets :=
  if start ≤ stop ∧ stop ≤ o.length then some ((o.drop start).take (stop - start)) else none

/-- The octets of a place after others have been copied to it, of which there have to be as many. -/
def copy (dest src : Octets) : Option Octets := if dest.length = src.length then some src else none

/-- A string with octets copied to the place between two positions. -/
def write {n : Nat} (dest : FixedOctets n) (start stop : Nat) (src : Octets) :
    Option (FixedOctets n) :=
  if h : start ≤ stop ∧ stop ≤ n ∧ src.length = stop - start then
    some ⟨dest.val.take start ++ src ++ dest.val.drop stop, by
      have hdest := dest.property
      simp only [List.length_append, List.length_take, List.length_drop]
      omega⟩
  else
    none

/-- A string of zeros. -/
def zeros (n : Nat) : FixedOctets n := ⟨List.replicate n 0, List.length_replicate⟩

theorem length_zeros (n : Nat) : (zeros n).val.length = n := (zeros n).property

theorem slice_eq_some {o : Octets} {start stop : Nat} (h : start ≤ stop) (hle : stop ≤ o.length) :
    slice o start stop = some ((o.drop start).take (stop - start)) :=
  if_pos ⟨h, hle⟩

theorem slice_front {o : Octets} {stop : Nat} (h : stop ≤ o.length) :
    slice o 0 stop = some (o.take stop) :=
  slice_eq_some (Nat.zero_le _) h

theorem slice_back {o : Octets} {start : Nat} (h : start ≤ o.length) :
    slice o start o.length = some (o.drop start) := by
  rw [slice_eq_some h (Nat.le_refl _), ← List.length_drop, List.take_length]

theorem copy_eq_some {dest src : Octets} (h : dest.length = src.length) :
    copy dest src = some src :=
  if_pos h

/-- Octets that are copied to the front of zeros have zeros behind them. -/
theorem write_front {n stop : Nat} {src : Octets} (h : src.length ≤ n) (hstop : stop = src.length) :
    write (zeros n) 0 stop src = some (.padRight n src h) := by
  subst hstop
  rw [write, dif_pos ⟨Nat.zero_le _, h, rfl⟩]
  refine congrArg some (Subtype.ext ?_)
  simp only [zeros, FixedOctets.padRight, List.take_zero, List.nil_append, List.drop_replicate]

/-- Octets that are copied to the end of zeros have zeros in front of them. -/
theorem write_back {n : Nat} {src : Octets} (h : src.length ≤ n) :
    write (zeros n) (n - src.length) n src = some (.padLeft n src h) := by
  rw [write, dif_pos ⟨Nat.sub_le _ _, Nat.le_refl _, by omega⟩]
  refine congrArg some (Subtype.ext ?_)
  simp only [zeros, FixedOctets.padLeft, List.drop_replicate, Nat.sub_self, List.replicate_zero,
    List.append_nil, List.take_replicate]
  rw [Nat.min_eq_left (Nat.sub_le _ _)]

/-- The octets without the zeros in front are those from the first other one on. -/
theorem slice_significant (o : Octets) :
    slice o (o.findIdx (· != 0)) o.length = some o.significant := by
  rw [slice_back List.findIdx_le_length, Octets.significant, List.dropWhile_eq_drop_findIdx_not]
  rfl

/-! ## Steps with errors -/

variable {ε ε' α β : Type}

/-- The computation does not stop, and it has the given result. -/
def Computes (c : ExceptT ε Option α) (r : Except ε α) : Prop := c.run = some r

theorem computes_ok (a : α) : Computes (pure a : ExceptT ε Option α) (.ok a) := rfl

theorem computes_error (e : ε) : Computes (throw e : ExceptT ε Option α) (.error e) := rfl

/-- What has no operations a machine can fail at. -/
theorem computes_lift (r : Except ε α) : Computes (liftM r : ExceptT ε Option α) r := rfl

/-- An operation inside its domain, and what comes after it. -/
theorem computes_operation {x : Option α} {a : α} {next : α → ExceptT ε Option β}
    {r : Except ε β} (hx : x = some a) (h : Computes (next a) r) :
    Computes ((liftM x : ExceptT ε Option α) >>= next) r := by
  subst hx
  exact h

/-- One step after the other. -/
theorem computes_bind {c : ExceptT ε Option α} {r : Except ε α} {next : α → ExceptT ε Option β}
    {next' : α → Except ε β} (h : Computes c r)
    (hnext : ∀ a, r = .ok a → Computes (next a) (next' a)) :
    Computes (c >>= next) (r >>= next') := by
  have hrun : (c >>= next).run = c.run >>= ExceptT.bindCont next := rfl
  rw [Computes, hrun, h]
  cases r with
  | ok a => exact hnext a rfl
  | error e => rfl

/-- What is made of a result afterwards. -/
theorem computes_map {c : ExceptT ε Option α} {r : Except ε α} (f : α → β) (h : Computes c r) :
    Computes (f <$> c) (f <$> r) := by
  have hrun : (f <$> c).run = (f <$> ·) <$> c.run := ExceptT.run_map f c
  rw [Computes, hrun, h]
  rfl

/-- The error of a computation may be changed. -/
theorem computes_adapt {c : ExceptT ε Option α} {r : Except ε α} (f : ε → ε') (h : Computes c r) :
    Computes (ExceptT.adapt f c) (r.mapError f) := by
  have hrun : (ExceptT.adapt f c).run = Except.mapError f <$> c.run := rfl
  rw [Computes, hrun, h]
  rfl

/-- What has been read in a field. -/
def inField (f : Field) (c : ExceptT StructuralError Option α) : ExceptT ParseError Option α :=
  ExceptT.adapt (fun e ↦ .structural (e.within f)) c

/-- What has been made of a value. -/
def asValue (c : ExceptT SemanticError Option α) : ExceptT ParseError Option α :=
  ExceptT.adapt .semantic c

theorem computes_inField {f : Field} {c : ExceptT StructuralError Option α}
    {r : Except StructuralError α} (h : Computes c r) : Computes (inField f c) (Rpki.inField f r) :=
  computes_adapt _ h

theorem computes_asValue {c : ExceptT SemanticError Option α} {r : Except SemanticError α}
    (h : Computes c r) : Computes (asValue c) (Rpki.asValue r) :=
  computes_adapt _ h

end Machine

end Rpki
