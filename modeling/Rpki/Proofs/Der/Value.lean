import Rpki.Der.Value
import Rpki.Proofs.Der.Header

/-!
# The grammar of values

`Value.skip?` finds the end of a value within a number of steps.  Neither the steps nor the order in
which it looks at things say anything about the octets, so `Value.Spans` says it without them: it is
the grammar of what each of the three scopes steps over, one rule for each way to go on.

* `Value.spans_of_skipWithin`: whatever is stepped over is derived by the grammar.
* `Value.skipWithin_of_spans`: whatever the grammar derives is stepped over, whatever comes behind
  it, and `Value.cost` steps are enough.
* `Value.skip?_eq_some_iff` and `Value.isContent_iff`: with the steps that are allowed, both hold.
-/

set_option autoImplicit false

namespace Rpki

namespace Der

namespace Value

/-! ## The grammar -/

/-- The octets that a scope steps over.  A primitive value must not be the end of an indefinite one,
and a constructed value with the same tag is no such end. -/
inductive Spans : Scope → Octets → Prop
  | primitive {t : Tag} {content : Octets} (regular : t.IsRegular) (ne_end : t ≠ .endOfContents)
      (lt : content.length < 2 ^ 32) :
      Spans .single (t.octets false ++ Length.octets content.length ++ content)
  | constructed {t : Tag} {content : Octets} (regular : t.IsRegular)
      (lt : content.length < 2 ^ 32) (h : Spans .definite content) :
      Spans .single (t.octets true ++ Length.octets content.length ++ content)
  | unbounded {t : Tag} {body : Octets} (regular : t.IsRegular) (h : Spans .indefinite body) :
      Spans .single (t.octets true ++ 0x80 :: body)
  | nil : Spans .definite []
  | cons {v vs : Octets} (h : Spans .single v) (hs : Spans .definite vs) :
      Spans .definite (v ++ vs)
  | close : Spans .indefinite [0x00, 0x00]
  | next {v vs : Octets} (h : Spans .single v) (hs : Spans .indefinite vs) :
      Spans .indefinite (v ++ vs)

/-- The octets that end an indefinite value. -/
theorem read?_isEnd_iff {s rest : Octets} :
    (∃ h, Header.read? s = some (h, rest) ∧ h.isEnd = true) ↔ s = 0x00 :: 0x00 :: rest := by
  have hregular : Tag.IsRegular .endOfContents := Tag.isRegular_mk (by decide) (by decide)
  constructor
  · rintro ⟨h, hread, hend⟩
    rw [Header.isEnd, beq_iff_eq] at hend
    subst hend
    exact (Header.read?_definite_iff.mp hread).2.2
  · rintro rfl
    exact ⟨⟨.endOfContents, false, .definite 0⟩,
      Header.read?_definite_iff.mpr ⟨hregular, by decide, rfl⟩, by decide⟩

/-! ## Soundness -/

/-- The value in front, from the header that is read for it. -/
theorem spans_single_of_skipWithin {steps : Nat}
    (ih : ∀ {scope : Scope} {s rest : Octets}, skipWithin steps scope s = some rest →
      ∃ v, Spans scope v ∧ s = v ++ rest ∧ (scope = .definite → rest = []))
    {s rest : Octets} (h : skipWithin (steps + 1) .single s = some rest) :
    ∃ v, Spans .single v ∧ s = v ++ rest := by
  simp only [skipWithin, Option.bind_eq_bind, Option.bind_eq_some_iff] at h
  obtain ⟨⟨⟨t, c, length⟩, body⟩, hread, h⟩ := h
  cases c with
  | false =>
    cases length with
    | indefinite => simp at h
    | definite n =>
      obtain ⟨hregular, hlt, rfl⟩ := Header.read?_definite_iff.mp hread
      dsimp only at h
      split at h
      · simp at h
      · next hne =>
        obtain ⟨⟨content, rest'⟩, htake, rfl⟩ := Option.map_eq_some_iff.mp h
        rw [FixedOctets.take?_eq_some_iff] at htake
        subst htake
        have hcontent : Spans .single
            (t.octets false ++ Length.octets content.val.length ++ content.val) :=
          .primitive hregular hne (by rw [content.property]; exact hlt)
        rw [content.property] at hcontent
        exact ⟨_, hcontent, (List.append_assoc _ _ _).symm⟩
  | true =>
    cases length with
    | indefinite =>
      obtain ⟨hregular, rfl⟩ := Header.read?_indefinite_iff.mp hread
      obtain ⟨v, hv, rfl, -⟩ := ih h
      exact ⟨_, .unbounded hregular hv, by rw [List.append_assoc, List.cons_append]⟩
    | definite n =>
      obtain ⟨hregular, hlt, rfl⟩ := Header.read?_definite_iff.mp hread
      simp only [Option.bind_eq_some_iff, Option.pure_def, Option.some.injEq] at h
      obtain ⟨⟨content, rest'⟩, htake, rest'', hskip, rfl⟩ := h
      rw [FixedOctets.take?_eq_some_iff] at htake
      subst htake
      obtain ⟨v, hv, heq, hnil⟩ := ih hskip
      rw [hnil rfl, List.append_nil] at heq
      have hcontent : Spans .single
          (t.octets true ++ Length.octets content.val.length ++ content.val) :=
        .constructed hregular (by rw [content.property]; exact hlt) (heq ▸ hv)
      rw [content.property] at hcontent
      exact ⟨_, hcontent, (List.append_assoc _ _ _).symm⟩

/-- **Whatever is stepped over is derived by the grammar.**  The induction is on the steps.  The
values of a definite scope go on to the end of the octets, so nothing is left behind them. -/
theorem spans_of_skipWithin {steps : Nat} {scope : Scope} {s rest : Octets}
    (h : skipWithin steps scope s = some rest) :
    ∃ v, Spans scope v ∧ s = v ++ rest ∧ (scope = .definite → rest = []) := by
  induction steps generalizing scope s rest with
  | zero => simp [skipWithin] at h
  | succ steps ih =>
    cases scope with
    | single =>
      obtain ⟨v, hv, heq⟩ := spans_single_of_skipWithin ih h
      exact ⟨v, hv, heq, by simp⟩
    | definite =>
      rw [skipWithin] at h
      split at h
      · next hnil =>
        obtain rfl := Option.some.inj h
        exact ⟨[], .nil, hnil, fun _ ↦ rfl⟩
      · simp only [Option.bind_eq_bind, Option.bind_eq_some_iff] at h
        obtain ⟨mid, hskip, hskips⟩ := h
        obtain ⟨v, hv, rfl, -⟩ := ih hskip
        obtain ⟨vs, hvs, rfl, hnil⟩ := ih hskips
        exact ⟨v ++ vs, .cons hv hvs, (List.append_assoc _ _ _).symm, hnil⟩
    | indefinite =>
      simp only [skipWithin, Option.bind_eq_bind, Option.bind_eq_some_iff] at h
      obtain ⟨⟨header, body⟩, hread, h⟩ := h
      split at h
      · next hend =>
        obtain rfl := Option.some.inj h
        exact ⟨[0x00, 0x00], .close, read?_isEnd_iff.mp ⟨header, hread, hend⟩, by simp⟩
      · simp only [Option.bind_eq_some_iff] at h
        obtain ⟨mid, hskip, hskips⟩ := h
        obtain ⟨v, hv, rfl, -⟩ := ih hskip
        obtain ⟨vs, hvs, rfl, -⟩ := ih hskips
        exact ⟨v ++ vs, .next hv hvs, (List.append_assoc _ _ _).symm, by simp⟩

/-! ## Completeness -/

/-- A number of steps that is enough for octets of a scope. -/
def cost : Scope → Octets → Nat
  | .single, s => 2 * s.length + 1
  | .definite, s | .indefinite, s => 2 * s.length + 2

theorem Spans.two_le_length {s : Octets} (h : Spans .single s) : 2 ≤ s.length := by
  cases h with
  | primitive => simp only [List.length_append, Tag.length_octets, Length.length_octets]; omega
  | constructed => simp only [List.length_append, Tag.length_octets, Length.length_octets]; omega
  | unbounded => simp only [List.length_append, Tag.length_octets, List.length_cons]; omega

/-- A value has a header, and it is not the end of an indefinite value. -/
theorem Spans.header_ne_end {s : Octets} (h : Spans .single s) (rest : Octets) :
    ∃ header body, Header.read? (s ++ rest) = some (header, body) ∧ header.isEnd = false := by
  cases h with
  | @primitive t content hregular hne hlt =>
    refine ⟨⟨t, false, .definite content.length⟩, content ++ rest,
      Header.read?_definite_iff.mpr ⟨hregular, hlt, List.append_assoc _ _ _⟩, ?_⟩
    rw [Header.isEnd, beq_eq_false_iff_ne]
    exact fun heq ↦ hne (congrArg Header.tag heq)
  | @constructed t content hregular hlt =>
    refine ⟨⟨t, true, .definite content.length⟩, content ++ rest,
      Header.read?_definite_iff.mpr ⟨hregular, hlt, List.append_assoc _ _ _⟩, ?_⟩
    rw [Header.isEnd, beq_eq_false_iff_ne]
    exact fun heq ↦ Bool.noConfusion (congrArg Header.constructed heq)
  | @unbounded t body hregular =>
    refine ⟨⟨t, true, .indefinite⟩, body ++ rest,
      Header.read?_indefinite_iff.mpr ⟨hregular, List.append_assoc _ _ _⟩, ?_⟩
    rw [Header.isEnd, beq_eq_false_iff_ne]
    exact fun heq ↦ Bool.noConfusion (congrArg Header.constructed heq)

/-- The length in a definite header counts the octets behind it. -/
theorem Spans.length_eq_of_read? {s body : Octets} {t : Tag} {c : Bool} {n : Nat}
    (h : Spans .single s) (hread : Header.read? s = some (⟨t, c, .definite n⟩, body)) :
    body.length = n := by
  cases h with
  | @primitive t' content hregular _ hlt =>
    rw [Header.read?_definite_iff.mpr ⟨hregular, hlt, rfl⟩] at hread
    simp only [Option.some.injEq, Prod.mk.injEq, Header.mk.injEq, Length.definite.injEq] at hread
    obtain ⟨⟨-, -, rfl⟩, rfl⟩ := hread
    rfl
  | @constructed t' content hregular hlt =>
    rw [Header.read?_definite_iff.mpr ⟨hregular, hlt, rfl⟩] at hread
    simp only [Option.some.injEq, Prod.mk.injEq, Header.mk.injEq, Length.definite.injEq] at hread
    obtain ⟨⟨-, -, rfl⟩, rfl⟩ := hread
    rfl
  | @unbounded t' body' hregular =>
    rw [Header.read?_indefinite_iff.mpr ⟨hregular, rfl⟩] at hread
    simp at hread

/-- **Whatever the grammar derives is stepped over**, whatever comes behind it.  The induction is on
the derivation.  A value inside another one has two octets less, which pays for the two steps that
it takes to get there. -/
theorem skipWithin_of_spans {scope : Scope} {s : Octets} (h : Spans scope s) :
    ∀ (steps : Nat) (rest : Octets), cost scope s ≤ steps → (scope = .definite → rest = []) →
      skipWithin steps scope (s ++ rest) = some rest := by
  induction h with
  | @primitive t content hregular hne hlt =>
    intro steps rest hcost _
    obtain _ | steps := steps
    · exact absurd hcost (Nat.not_succ_le_zero _)
    have hread : Header.read? (t.octets false ++ Length.octets content.length ++ content ++ rest) =
        some (⟨t, false, .definite content.length⟩, content ++ rest) :=
      Header.read?_definite_iff.mpr ⟨hregular, hlt, List.append_assoc _ _ _⟩
    have htake : FixedOctets.take? content.length (content ++ rest) =
        some (⟨content, rfl⟩, rest) := FixedOctets.take?_eq_some_iff.mpr rfl
    simp only [skipWithin, hread, htake, hne, Option.bind_eq_bind, Option.bind_some, ↓reduceIte,
      Option.map_some]
  | @constructed t content hregular hlt _ ih =>
    intro steps rest hcost _
    simp only [cost, List.length_append, Tag.length_octets, Length.length_octets] at hcost ih
    obtain _ | steps := steps
    · exact absurd hcost (Nat.not_succ_le_zero _)
    have hread : Header.read? (t.octets true ++ Length.octets content.length ++ content ++ rest) =
        some (⟨t, true, .definite content.length⟩, content ++ rest) :=
      Header.read?_definite_iff.mpr ⟨hregular, hlt, List.append_assoc _ _ _⟩
    have htake : FixedOctets.take? content.length (content ++ rest) =
        some (⟨content, rfl⟩, rest) := FixedOctets.take?_eq_some_iff.mpr rfl
    have hinner := ih steps [] (by omega) fun _ ↦ rfl
    rw [List.append_nil] at hinner
    simp only [skipWithin, hread, htake, hinner, Option.bind_eq_bind, Option.bind_some,
      Option.pure_def]
  | @unbounded t body hregular _ ih =>
    intro steps rest hcost _
    simp only [cost, List.length_append, Tag.length_octets, List.length_cons] at hcost ih
    obtain _ | steps := steps
    · exact absurd hcost (Nat.not_succ_le_zero _)
    have hread : Header.read? (t.octets true ++ 0x80 :: body ++ rest) =
        some (⟨t, true, .indefinite⟩, body ++ rest) :=
      Header.read?_indefinite_iff.mpr ⟨hregular, List.append_assoc _ _ _⟩
    have hinner := ih steps rest (by omega) (by simp)
    simp only [skipWithin, hread, Option.bind_eq_bind, Option.bind_some]
    exact hinner
  | nil =>
    intro steps rest hcost hnil
    obtain _ | steps := steps
    · exact absurd hcost (Nat.not_succ_le_zero _)
    rw [hnil rfl]
    rfl
  | @cons v vs hv _ ihv ihvs =>
    intro steps rest hcost hnil
    have hlen := hv.two_le_length
    simp only [cost, List.length_append] at hcost ihv ihvs
    obtain _ | steps := steps
    · exact absurd hcost (Nat.not_succ_le_zero _)
    have hne : v ++ vs ++ rest ≠ [] := by
      intro heq
      rw [List.append_assoc, List.append_eq_nil_iff] at heq
      rw [heq.1, List.length_nil] at hlen
      omega
    have h1 := ihv steps (vs ++ rest) (by omega) (by simp)
    have h2 := ihvs steps rest (by omega) fun _ ↦ hnil rfl
    rw [skipWithin, if_neg hne, List.append_assoc, h1]
    exact h2
  | close =>
    intro steps rest hcost _
    obtain _ | steps := steps
    · exact absurd hcost (Nat.not_succ_le_zero _)
    obtain ⟨header, hread, hend⟩ := read?_isEnd_iff.mpr (rfl : [0x00, 0x00] ++ rest = _)
    simp only [skipWithin, hread, hend, Option.bind_eq_bind, Option.bind_some, ↓reduceIte]
    rfl
  | @next v vs hv _ ihv ihvs =>
    intro steps rest hcost _
    have hlen := hv.two_le_length
    simp only [cost, List.length_append] at hcost ihv ihvs
    obtain _ | steps := steps
    · exact absurd hcost (Nat.not_succ_le_zero _)
    obtain ⟨header, body, hread, hend⟩ := hv.header_ne_end (vs ++ rest)
    have h1 := ihv steps (vs ++ rest) (by omega) (by simp)
    have h2 := ihvs steps rest (by omega) (by simp)
    rw [List.append_assoc]
    simp only [skipWithin, hread, hend, h1, Option.bind_eq_bind, Option.bind_some,
      Bool.false_eq_true, ↓reduceIte]
    exact h2

/-! ## The steps that are allowed -/

theorem cost_le_fuel (scope : Scope) (s rest : Octets) : cost scope s ≤ fuel (s ++ rest) := by
  rw [fuel, List.length_append]
  cases scope <;> rw [cost] <;> omega

/-- **A value is stepped over exactly if the grammar derives it.** -/
theorem skip?_eq_some_iff {s rest : Octets} :
    skip? s = some rest ↔ ∃ v, Spans .single v ∧ s = v ++ rest := by
  refine ⟨fun h ↦ ?_, fun h ↦ ?_⟩
  · obtain ⟨v, hv, heq, -⟩ := spans_of_skipWithin h
    exact ⟨v, hv, heq⟩
  · obtain ⟨v, hv, rfl⟩ := h
    exact skipWithin_of_spans hv _ _ (cost_le_fuel _ _ _) (by simp)

/-- **Octets are values one after the other exactly if the grammar derives them.** -/
theorem isContent_iff {s : Octets} : isContent s = true ↔ Spans .definite s := by
  rw [isContent, Option.isSome_iff_exists]
  refine ⟨fun h ↦ ?_, fun h ↦ ?_⟩
  · obtain ⟨rest, h⟩ := h
    obtain ⟨v, hv, heq, hnil⟩ := spans_of_skipWithin h
    rw [hnil rfl, List.append_nil] at heq
    rw [heq]
    exact hv
  · have hskip := skipWithin_of_spans h _ [] (cost_le_fuel _ _ []) fun _ ↦ rfl
    rw [List.append_nil] at hskip
    exact ⟨[], hskip⟩

end Value

end Der

end Rpki
