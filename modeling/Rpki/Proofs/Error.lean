import Rpki.Error

/-!
# What success and failure say

A reader that is put together from others succeeds exactly if each of them does.  The steps of a
reader are joined in `Except`, and the steps of reading an object are wrapped in `inField` and
`asValue`, which change errors and nothing else.  With the lemmas on success, which are all
equivalences, a successful reading is taken apart from the outside in, and is put together in the
same way.

Failure says less, since any step can be the one that failed (`bind_eq_error_iff`).  `FailsOnly` is
what all errors of a reader have in common, and its lemmas go along the steps.
-/

set_option autoImplicit false

namespace Rpki

/-! ## Success -/

theorem bind_eq_ok_iff {ε α β : Type} {r : Except ε α} {next : α → Except ε β} {b : β} :
    (r >>= next) = .ok b ↔ ∃ a, r = .ok a ∧ next a = .ok b := by
  cases r with
  | ok a => exact ⟨fun h ↦ ⟨a, rfl, h⟩, fun ⟨_, ha, h⟩ ↦ by cases ha; exact h⟩
  | error e => exact ⟨fun h ↦ (nomatch h), fun ⟨_, ha, _⟩ ↦ (nomatch ha)⟩

theorem pure_eq_ok_iff {ε α : Type} {a b : α} : (pure a : Except ε α) = .ok b ↔ a = b :=
  ⟨fun h ↦ Except.ok.inj h, fun h ↦ congrArg Except.ok h⟩

theorem map_eq_ok_iff {ε α β : Type} {f : α → β} {r : Except ε α} {b : β} :
    f <$> r = .ok b ↔ ∃ a, r = .ok a ∧ f a = b := by
  cases r with
  | ok a => exact ⟨fun h ↦ ⟨a, rfl, Except.ok.inj h⟩, fun ⟨_, ha, h⟩ ↦ by cases ha; rw [← h]; rfl⟩
  | error e => exact ⟨fun h ↦ (nomatch h), fun ⟨_, ha, _⟩ ↦ (nomatch ha)⟩

/-- What is returned after a check is returned exactly if the check succeeds. -/
theorem check_return_eq_ok_iff {ε α : Type} {check : Except ε Unit} {a b : α} :
    (do check; return a) = (.ok b : Except ε α) ↔ check = .ok () ∧ a = b := by
  rw [bind_eq_ok_iff]
  refine ⟨fun h ↦ ?_, fun h ↦ ?_⟩
  · obtain ⟨_, hcheck, ha⟩ := h
    exact ⟨hcheck, pure_eq_ok_iff.mp ha⟩
  · exact ⟨(), h.1, pure_eq_ok_iff.mpr h.2⟩

theorem mapError_eq_ok_iff {ε ε' α : Type} {f : ε → ε'} {r : Except ε α} {a : α} :
    r.mapError f = .ok a ↔ r = .ok a := by
  cases r with
  | ok b => exact ⟨fun h ↦ congrArg Except.ok (Except.ok.inj h),
      fun h ↦ congrArg Except.ok (Except.ok.inj h)⟩
  | error e => exact ⟨fun h ↦ (nomatch h), fun h ↦ (nomatch h)⟩

theorem inField_eq_ok_iff {α : Type} {f : Field} {r : Except StructuralError α} {a : α} :
    inField f r = .ok a ↔ r = .ok a :=
  mapError_eq_ok_iff

theorem asValue_eq_ok_iff {α : Type} {r : Except SemanticError α} {a : α} :
    asValue r = .ok a ↔ r = .ok a :=
  mapError_eq_ok_iff

/-! ## Failure -/

theorem bind_eq_error_iff {ε α β : Type} {r : Except ε α} {next : α → Except ε β} {e : ε} :
    (r >>= next) = .error e ↔ r = .error e ∨ ∃ a, r = .ok a ∧ next a = .error e := by
  cases r with
  | ok a =>
    constructor
    · exact fun h ↦ .inr ⟨a, rfl, h⟩
    · rintro (h | ⟨_, ha, h⟩)
      · exact nomatch h
      · cases ha
        exact h
  | error e' =>
    constructor
    · exact fun h ↦ .inl (congrArg Except.error (Except.error.inj h))
    · rintro (h | ⟨_, ha, -⟩)
      · exact congrArg Except.error (Except.error.inj h)
      · exact nomatch ha

/-- Whatever error comes out has the property. -/
def FailsOnly {ε α : Type} (P : ε → Prop) (r : Except ε α) : Prop := ∀ e, r = .error e → P e

theorem failsOnly_ok {ε α : Type} {P : ε → Prop} (a : α) : FailsOnly P (.ok a : Except ε α) :=
  fun _ h ↦ nomatch h

theorem failsOnly_error {ε α : Type} {P : ε → Prop} {e : ε} (h : P e) :
    FailsOnly P (.error e : Except ε α) :=
  fun _ he ↦ Except.error.inj he ▸ h

/-- The next step only has to be looked at for what the first one can return. -/
theorem failsOnly_bind_of_ok {ε α β : Type} {P : ε → Prop} {r : Except ε α} {next : α → Except ε β}
    (hr : FailsOnly P r) (hnext : ∀ a, r = .ok a → FailsOnly P (next a)) :
    FailsOnly P (r >>= next) := by
  intro e h
  obtain h | ⟨a, ha, h⟩ := bind_eq_error_iff.mp h
  · exact hr e h
  · exact hnext a ha e h

theorem failsOnly_bind {ε α β : Type} {P : ε → Prop} {r : Except ε α} {next : α → Except ε β}
    (hr : FailsOnly P r) (hnext : ∀ a, FailsOnly P (next a)) : FailsOnly P (r >>= next) :=
  failsOnly_bind_of_ok hr fun a _ ↦ hnext a

theorem FailsOnly.mono {ε α : Type} {P Q : ε → Prop} {r : Except ε α} (h : FailsOnly P r)
    (hPQ : ∀ e, P e → Q e) : FailsOnly Q r :=
  fun e he ↦ hPQ e (h e he)

theorem failsOnly_mapError {ε ε' α : Type} {P : ε' → Prop} {f : ε → ε'} {r : Except ε α}
    (h : FailsOnly (fun e ↦ P (f e)) r) : FailsOnly P (r.mapError f) := by
  cases r with
  | ok a => exact failsOnly_ok a
  | error e => exact failsOnly_error (h e rfl)

/-- What is said of the faults found in a field is said of the errors that name it. -/
theorem failsOnly_inField_of {α : Type} {P : ParseError → Prop} {Q : Der.Fault → Prop} {f : Field}
    {r : Except StructuralError α} (hr : FailsOnly (fun e ↦ e.field = none ∧ Q e.fault) r)
    (h : ∀ fault, Q fault → P (.structural ⟨some f, fault⟩)) : FailsOnly P (inField f r) := by
  refine failsOnly_mapError fun ⟨field, fault⟩ he ↦ ?_
  obtain ⟨rfl, hfault⟩ : field = none ∧ Q fault := hr _ he
  exact h fault hfault

/-- A fault that no field has been named for is one of the field it is found in. -/
theorem failsOnly_inField {α : Type} {P : ParseError → Prop} {f : Field}
    {r : Except StructuralError α} (hr : FailsOnly (·.field = none) r)
    (h : ∀ fault, P (.structural ⟨some f, fault⟩)) : FailsOnly P (inField f r) :=
  failsOnly_inField_of (Q := fun _ ↦ True) (hr.mono fun _ he ↦ ⟨he, trivial⟩) fun fault _ ↦ h fault

theorem failsOnly_asValue {α : Type} {P : ParseError → Prop} {r : Except SemanticError α}
    (h : FailsOnly (fun e ↦ P (.semantic e)) r) : FailsOnly P (asValue r) :=
  failsOnly_mapError h

end Rpki
