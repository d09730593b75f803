import Rpki.Der.Header

/-!
# Stepping over values

`Value.skip?` finds the end of the value in front without keeping anything of it.  It looks into
constructed values, so that what it accepts is well-formed all the way down, and it accepts
indefinite lengths at every level.

The three things to step over call each other: a value, the content of a definite value, which has
to be used up exactly, and the content of an indefinite one, which goes on to its end-of-contents
value.  They are one function with a `Scope` for which of the three it is.  Every call that takes
no octet is followed by one that does, so a number of steps proportional to the octets is enough,
and `Value.fuel` allows that many.
-/

set_option autoImplicit false

namespace Rpki

namespace Der

namespace Value

/-- What to step over. -/
inductive Scope
  /-- One value, which is not the end of an indefinite one. -/
  | single
  /-- Values to the end of the octets. -/
  | definite
  /-- Values up to and including the end-of-contents value. -/
  | indefinite
deriving DecidableEq

/-- Steps over what the scope says and returns the octets behind it, within a number of steps. -/
def skipWithin : Nat → Scope → Octets → Option Octets
  | 0, _, _ => none
  | steps + 1, .single, s => do
    let (h, body) ← Header.read? s
    match h.constructed, h.length with
    | false, .definite n =>
      if h.tag = .endOfContents then none
      else (FixedOctets.take? n body).map (·.2)
    | false, .indefinite => none
    | true, .definite n => do
      let (content, rest) ← FixedOctets.take? n body
      let _ ← skipWithin steps .definite content.val
      return rest
    | true, .indefinite => skipWithin steps .indefinite body
  | steps + 1, .definite, s =>
    if s = [] then some []
    else do
      let rest ← skipWithin steps .single s
      skipWithin steps .definite rest
  | steps + 1, .indefinite, s => do
    let (h, body) ← Header.read? s
    if h.isEnd then some body
    else do
      let rest ← skipWithin steps .single s
      skipWithin steps .indefinite rest

/-- Enough steps for any octets of that number. -/
def fuel (s : Octets) : Nat := 2 * s.length + 2

/-- Steps over the value in front. -/
def skip? (s : Octets) : Option Octets := skipWithin (fuel s) .single s

/-- Are the octets values, one after the other? -/
def isContent (s : Octets) : Bool := (skipWithin (fuel s) .definite s).isSome

end Value

end Der

end Rpki
