import Rpki.Proofs.Der.Sequence

/-!
# Which faults there are

Each of the functions that take a sequence apart has faults of its own.  Decoding octets finds that
they are no sequence or that there are too many of them, counting elements finds their number, and
asking for an element finds what is wrong with that element.

Asking can also find that there is no such element.  Who has counted first does not get that answer
(`Sequence.faults_contentAt`), so that `Fault.IsInside` holds of all faults but those of decoding:
they are about something that is there.
-/

set_option autoImplicit false

namespace Rpki

namespace Der

/-! ## Kinds of faults -/

namespace Fault

/-- The fault of an element that is there and is asked for by its kind: it is of another kind, or
its content is not that of the kind. -/
inductive IsOf (position : Nat) (kind : Kind) : Fault → Prop
  | unexpected (found : Tag) (constructed : Bool) :
    IsOf position kind (.unexpectedElement position kind found constructed)
  | encoding : IsOf position kind (.badEncoding position kind)

/-- A fault in what is there: neither is an element missing, nor are octets left over. -/
def IsInside (fault : Fault) : Prop :=
  (∀ position, fault ≠ .missingElement position) ∧ ∀ octets, fault ≠ .trailingData octets

theorem IsOf.isInside {position : Nat} {kind : Kind} {fault : Fault}
    (h : fault.IsOf position kind) : fault.IsInside := by
  cases h with
  | unexpected found constructed => exact ⟨fun _ h ↦ (nomatch h), fun _ h ↦ (nomatch h)⟩
  | encoding => exact ⟨fun _ h ↦ (nomatch h), fun _ h ↦ (nomatch h)⟩

theorem isInside_elementCount (allowed : List Nat) (found : Nat) :
    IsInside (.elementCount allowed found) :=
  ⟨fun _ h ↦ (nomatch h), fun _ h ↦ (nomatch h)⟩

theorem isInside_badValue (position : Nat) (kind : Kind) (value : BadValue) :
    IsInside (.badValue position kind value) :=
  ⟨fun _ h ↦ (nomatch h), fun _ h ↦ (nomatch h)⟩

/-- The faults without a position are those of a sequence as a whole. -/
theorem position?_eq_none_iff {fault : Fault} :
    fault.position? = none ↔
      fault = .decoding ∨ (∃ octets, fault = .trailingData octets) ∨
        ∃ allowed found, fault = .elementCount allowed found := by
  cases fault <;> simp [position?]

end Fault

/-! ## Where they come from -/

theorem failsOnly_fail {α : Type} (fault : Fault) :
    FailsOnly (·.field = none) (fail fault : Except StructuralError α) :=
  failsOnly_error rfl

theorem Element.faults_contentAs {α : Type} (e : Element) (position : Nat) (kind : Kind)
    (read? : Octets → Option α) :
    FailsOnly (fun error ↦ error.field = none ∧ error.fault.IsOf position kind)
      (e.contentAs position kind read?) := by
  rw [contentAs]
  refine failsOnly_bind ?_ fun e ↦ ?_
  · rw [expect]
    split
    · exact failsOnly_ok _
    · exact failsOnly_error ⟨rfl, .unexpected _ _⟩
  · cases read? e.content with
    | some a => exact failsOnly_ok a
    | none => exact failsOnly_error ⟨rfl, .encoding⟩

namespace Sequence

theorem faults_decode (data : Octets) :
    FailsOnly (fun error ↦ error.field = none ∧
      (error.fault = .decoding ∨ ∃ octets, error.fault = .trailingData octets)) (decode data) := by
  have hdecoding : FailsOnly (fun error ↦ error.field = none ∧
      (error.fault = .decoding ∨ ∃ octets, error.fault = .trailingData octets))
      (fail .decoding : Except StructuralError Sequence) := failsOnly_error ⟨rfl, .inl rfl⟩
  rw [decode]
  split
  · exact hdecoding
  · split
    · split
      · split
        · exact failsOnly_ok _
        · exact hdecoding
      · exact hdecoding
    · exact hdecoding
  · exact failsOnly_error ⟨rfl, .inr ⟨_, rfl⟩⟩

theorem faults_checkCount (s : Sequence) (allowed : List Nat) :
    FailsOnly (fun error ↦ error.field = none ∧ error.fault = .elementCount allowed s.length)
      (s.checkCount allowed) := by
  rw [checkCount]
  split
  · exact failsOnly_ok _
  · exact failsOnly_error ⟨rfl, rfl⟩

theorem length_of_inField_checkCount {s : Sequence} {f : Field} {n count : Nat}
    (h : inField f (s.checkCount [n]) = .ok count) : s.length = n :=
  List.mem_singleton.mp (checkCount_eq_ok_iff.mp (inField_eq_ok_iff.mp h)).1

/-- **An element within the count is not missing.** -/
theorem faults_contentAt {α : Type} {s : Sequence} {position : Nat} (h : position < s.length)
    (kind : Kind) (read? : Octets → Option α) :
    FailsOnly (fun error ↦ error.field = none ∧ error.fault.IsOf position kind)
      (s.contentAt position kind read?) := by
  have hget : s.get position = .ok s[position] :=
    get_eq_ok_iff.mpr (List.getElem?_eq_getElem h)
  rw [contentAt, hget]
  exact Element.faults_contentAs _ position kind read?

/-! ## Faults in no field

A fault is found before anyone says which field was being read.  Here it does not matter what has
been counted. -/

theorem failsOnly_decode (data : Octets) : FailsOnly (·.field = none) (decode data) :=
  (faults_decode data).mono fun _ h ↦ h.1

theorem failsOnly_checkCount (s : Sequence) (allowed : List Nat) :
    FailsOnly (·.field = none) (s.checkCount allowed) :=
  (s.faults_checkCount allowed).mono fun _ h ↦ h.1

theorem failsOnly_contentAt {α : Type} (s : Sequence) (position : Nat) (kind : Kind)
    (read? : Octets → Option α) : FailsOnly (·.field = none) (s.contentAt position kind read?) := by
  rw [contentAt]
  refine failsOnly_bind ?_ fun e ↦ (e.faults_contentAs position kind read?).mono fun _ h ↦ h.1
  rw [get]
  cases s[position]? with
  | some e => exact failsOnly_ok e
  | none => exact failsOnly_fail _

/-! ## What fields make of them -/

variable {P : ParseError → Prop} {f : Field}
  (hfield : ∀ fault : Fault, fault.IsInside → P (.structural ⟨some f, fault⟩))
include hfield

theorem failsOnly_inField_checkCount (s : Sequence) (allowed : List Nat) :
    FailsOnly P (inField f (s.checkCount allowed)) := by
  refine failsOnly_inField_of (Q := (· = .elementCount allowed s.length))
    (s.faults_checkCount allowed) ?_
  rintro _ rfl
  exact hfield _ (Fault.isInside_elementCount allowed s.length)

theorem failsOnly_inField_contentAt {α : Type} {s : Sequence} {position : Nat}
    (h : position < s.length) (kind : Kind) (read? : Octets → Option α) :
    FailsOnly P (inField f (s.contentAt position kind read?)) :=
  failsOnly_inField_of (Q := (·.IsOf position kind)) (faults_contentAt h kind read?)
    fun fault hfault ↦ hfield fault hfault.isInside

end Sequence

end Der

end Rpki
