import Mathlib.Data.List.Forall2
import Rpki.Der.Encoded
import Rpki.Proofs.Der.Sequence
import Rpki.Proofs.Time.Generalized

/-!
# What is written is an element

A header is written before its content, and `Encoded` counts what the content will have instead of
looking at it.  `Encoded.Writes` says that a value came out right: its octets are those of an
element, and the headers around it count as many as there are.

Every value that has a length of its own is such a value, and so is a time in the years of four
digits, whose length is a constant.  A sequence of them is one again (`Encoded.writes_sequence`), at
every nesting and for every number of parts.
-/

set_option autoImplicit false

namespace Rpki

namespace Der

namespace Encoded

/-- The value is written as the element, and as many octets are counted for it. -/
structure Writes (v : Encoded) (e : Element) : Prop where
  octets_eq : v.octets = e.octets
  stated_eq : v.stated = e.octets.length

theorem writes_value {tag : Tag} {constructed : Bool} {stated : Nat} {content : Octets}
    (h : stated = content.length) :
    Writes (value tag constructed stated content) ⟨tag, constructed, content⟩ := by
  subst h
  refine ⟨rfl, ?_⟩
  rw [Element.octets, List.length_append]
  rfl

theorem writes_primitive (tag : Tag) (content : Octets) :
    Writes (primitive tag content) ⟨tag, false, content⟩ :=
  writes_value rfl

/-- A time has the length that is stated for it, as long as its year has four digits. -/
theorem writes_generalizedTime {t : Time} (h : 0 ≤ t.civil.year ∧ t.civil.year ≤ 9999) :
    Writes (generalizedTime t) ⟨.generalizedTime, false, GeneralizedTime.content t⟩ :=
  writes_value (GeneralizedTime.length_content h).symm

/-- **A sequence is written as the sequence of what its parts are written as.** -/
theorem writes_sequence {parts : List Encoded} {es : Sequence} (h : List.Forall₂ Writes parts es) :
    Writes (sequence parts) (.ofSequence es) := by
  have hoctets : parts.flatMap octets = es.flatMap Element.octets := by
    induction h with
    | nil => rfl
    | cons hpart _ ih => rw [List.flatMap_cons, List.flatMap_cons, hpart.octets_eq, ih]
  have hstated :
      (parts.map stated).foldr (· + ·) 0 = (es.flatMap Element.octets).length := by
    clear hoctets
    induction h with
    | nil => rfl
    | cons hpart _ ih =>
      rw [List.map_cons, List.foldr_cons, List.flatMap_cons, List.length_append, hpart.stated_eq,
        ih]
  rw [sequence, Element.ofSequence, hoctets]
  exact writes_value hstated

end Encoded

end Der

end Rpki
