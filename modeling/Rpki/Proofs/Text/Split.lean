import Mathlib.Data.List.Basic
import Rpki.Text.Split

/-!
# What splitting does to joined texts

Texts are made of parts with a separator between them, and split into parts again.  If no part has
the separator in it, these are the parts that there were, `split_intercalate`.

Two separators in a row are looked for from the left.  In parts that are joined there are none, as
long as no part is empty, so the search goes past them, `splitAtDouble?_intercalate_append`.
-/

set_option autoImplicit false

namespace Rpki

namespace Text

variable {separator : Char}

/-! ## Single separators -/

theorem split_ne_nil (separator : Char) (cs : List Char) : split separator cs ≠ [] := by
  cases cs with
  | nil => exact List.cons_ne_nil _ _
  | cons c cs =>
    rw [split]
    split
    · exact List.cons_ne_nil _ _
    · split <;> exact List.cons_ne_nil _ _

/-- A separator ends a part and starts the next. -/
theorem split_append_cons (a b : List Char) :
    split separator (a ++ separator :: b) = split separator a ++ split separator b := by
  induction a with
  | nil =>
    change split separator (separator :: b) = [] :: split separator b
    rw [split, if_pos rfl]
  | cons c a ih =>
    rw [List.cons_append, split, split]
    by_cases hc : c = separator
    · rw [if_pos hc, if_pos hc, ih, List.cons_append]
    · obtain ⟨part, parts, hparts⟩ := List.exists_cons_of_ne_nil (split_ne_nil separator a)
      rw [if_neg hc, if_neg hc, ih, hparts]
      rfl

theorem split_of_notMem {cs : List Char} (h : separator ∉ cs) : split separator cs = [cs] := by
  induction cs with
  | nil => rfl
  | cons c cs ih =>
    rw [List.mem_cons, not_or] at h
    rw [split, if_neg (Ne.symm h.1), ih h.2]

/-- **Parts that are joined are the parts of what they make.** -/
theorem split_intercalate {parts : List (List Char)} (hne : parts ≠ [])
    (h : ∀ p ∈ parts, separator ∉ p) : split separator ([separator].intercalate parts) = parts := by
  induction parts with
  | nil => exact absurd rfl hne
  | cons p parts ih =>
    rw [List.forall_mem_cons] at h
    cases parts with
    | nil => rw [List.intercalate_singleton, split_of_notMem h.1]
    | cons q parts =>
      rw [List.intercalate_cons_cons, List.append_assoc, List.singleton_append, split_append_cons,
        split_of_notMem h.1, ih (List.cons_ne_nil _ _) h.2, List.singleton_append]

/-- A character that does not separate is in one of the parts. -/
theorem exists_mem_split {c : Char} {cs : List Char} (h : c ∈ cs) (hc : c ≠ separator) :
    ∃ part ∈ split separator cs, c ∈ part := by
  obtain ⟨a, b, rfl⟩ := List.append_of_mem h
  induction a with
  | nil =>
    obtain ⟨part, parts, hparts⟩ := List.exists_cons_of_ne_nil (split_ne_nil separator b)
    refine ⟨c :: part, ?_, List.mem_cons_self⟩
    rw [List.nil_append, split, if_neg hc, hparts]
    exact List.mem_cons_self
  | cons d a ih =>
    obtain ⟨part, hpart, hmem⟩ := ih (List.mem_append_right _ List.mem_cons_self)
    rw [List.cons_append, split]
    split
    · exact ⟨part, List.mem_cons_of_mem _ hpart, hmem⟩
    · obtain ⟨first, parts, hparts⟩ :=
        List.exists_cons_of_ne_nil (split_ne_nil separator (a ++ c :: b))
      rw [hparts] at hpart ⊢
      rcases List.mem_cons.mp hpart with rfl | hpart
      · exact ⟨d :: part, List.mem_cons_self, List.mem_cons_of_mem _ hmem⟩
      · exact ⟨part, List.mem_cons_of_mem _ hpart, hmem⟩

/-- Joining brings in no character but the separator. -/
theorem notMem_intercalate {c : Char} {parts : List (List Char)} (hc : c ≠ separator)
    (h : ∀ p ∈ parts, c ∉ p) : c ∉ [separator].intercalate parts := by
  induction parts with
  | nil => exact List.not_mem_nil
  | cons p parts ih =>
    rw [List.forall_mem_cons] at h
    cases parts with
    | nil =>
      rw [List.intercalate_singleton]
      exact h.1
    | cons q parts =>
      rw [List.intercalate_cons_cons, List.mem_append, List.mem_append, not_or, not_or,
        List.mem_singleton]
      exact ⟨⟨h.1, hc⟩, ih h.2⟩

/-- There is a separator as soon as there are two parts. -/
theorem separator_mem_intercalate {parts : List (List Char)} (h : 2 ≤ parts.length) :
    separator ∈ [separator].intercalate parts := by
  match parts, h with
  | p :: q :: parts, _ =>
    rw [List.intercalate_cons_cons]
    exact List.mem_append_left _ (List.mem_append_right _ (List.mem_singleton.mpr rfl))

/-! ## Two separators in a row -/

/-- The search goes past a character if it is not the first of two separators. -/
theorem splitAtDouble?_cons {c : Char} {cs : List Char}
    (h : c ≠ separator ∨ cs.head? ≠ some separator) :
    splitAtDouble? separator (c :: cs) =
      (splitAtDouble? separator cs).map fun (front, back) ↦ (c :: front, back) := by
  cases cs with
  | nil => rfl
  | cons d cs =>
    rw [splitAtDouble?, if_neg]
    rintro ⟨hc, hd⟩
    exact h.elim (fun h ↦ h hc) (fun h ↦ h (congrArg some hd))

theorem splitAtDouble?_append_of_notMem {p : List Char} (h : separator ∉ p) (cs : List Char) :
    splitAtDouble? separator (p ++ cs) =
      (splitAtDouble? separator cs).map fun (front, back) ↦ (p ++ front, back) := by
  induction p with
  | nil => exact Option.map_id'.symm
  | cons c p ih =>
    rw [List.mem_cons, not_or] at h
    rw [List.cons_append, splitAtDouble?_cons (.inl (Ne.symm h.1)), ih h.2, Option.map_map]
    rfl

/-- **There are no two separators in a row** in parts that are joined, up to where they end, if none
of them is empty. -/
theorem splitAtDouble?_intercalate_append {parts : List (List Char)}
    (h : ∀ p ∈ parts, p ≠ [] ∧ separator ∉ p) (cs : List Char) :
    splitAtDouble? separator ([separator].intercalate parts ++ cs) =
      (splitAtDouble? separator cs).map fun (front, back) ↦
        ([separator].intercalate parts ++ front, back) := by
  induction parts with
  | nil => exact Option.map_id'.symm
  | cons p parts ih =>
    rw [List.forall_mem_cons] at h
    cases parts with
    | nil => rw [List.intercalate_singleton, splitAtDouble?_append_of_notMem h.1.2]
    | cons q parts =>
      -- What comes after the separator is the next part, which is not empty.
      have hhead : ([separator].intercalate (q :: parts) ++ cs).head? ≠ some separator := by
        obtain ⟨hq, hseparator⟩ := h.2 q List.mem_cons_self
        obtain ⟨c, q', rfl⟩ := List.exists_cons_of_ne_nil hq
        have hc : c ≠ separator := fun hc ↦ hseparator (hc ▸ List.mem_cons_self)
        cases parts with
        | nil => simpa using hc
        | cons r parts => simpa using hc
      rw [List.intercalate_cons_cons, List.append_assoc, List.append_assoc, List.singleton_append,
        splitAtDouble?_append_of_notMem h.1.2, splitAtDouble?_cons (.inr hhead), ih h.2,
        Option.map_map, Option.map_map]
      simp only [Function.comp_def, List.append_assoc, List.nil_append, List.cons_append]

end Text

end Rpki
