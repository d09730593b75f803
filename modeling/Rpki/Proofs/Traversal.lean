/-!
# Lists of which every item has to be something

Reading a list item by item gives up as soon as an item is nothing.  So a list that was written item
by item is read back if every item is, and a list with a bad item anywhere in it is not read at all.
-/

set_option autoImplicit false

namespace Rpki

variable {α β : Type}

/-- A list is read back if its items are. -/
theorem mapM_map_eq_some {write : α → β} {read? : β → Option α} {as : List α}
    (h : ∀ a ∈ as, read? (write a) = some a) : (as.map write).mapM read? = some as := by
  induction as with
  | nil => rfl
  | cons a as ih =>
    rw [List.forall_mem_cons] at h
    rw [List.map_cons, List.mapM_cons, h.1, ih h.2]
    rfl

/-- A list is not read if one of its items is not. -/
theorem mapM_eq_none_of_mem {read? : α → Option β} {as : List α} {a : α} (h : a ∈ as)
    (ha : read? a = none) : as.mapM read? = none := by
  induction as with
  | nil => exact absurd h List.not_mem_nil
  | cons b as ih =>
    rw [List.mapM_cons]
    rcases List.mem_cons.mp h with rfl | h
    · rw [ha]
      rfl
    · rw [ih h]
      cases read? b <;> rfl

end Rpki
