import Rpki.Manifest.Json
import Rpki.Proofs.Manifest.Transfer

/-!
# Fields and the transfer form are held to the same rules

A manifest can be put together from its fields, as it is when it comes from JSON, and it can be
read from its transfer form.  The first of these checks everything in the end, the second most of
it on the way, and they are code of their own.  `Manifest.ofFields_iff_ofTransfer` compares them:
fields that are in order for the one are in order for the other, whatever they are.

Only the times are seen differently, because the transfer form has whole seconds.  What comes back
has lost the fractions, and so has the comparison of the two times: a window that ends before it
starts but within the same second is refused with its fractions and passes without them.
-/

set_option autoImplicit false

namespace Rpki

namespace Manifest

/-! ## From fields -/

theorem ofFields_eq_ok_iff {fields m : Manifest} :
    ofFields fields = .ok m ↔ fields.WellFormed ∧ fields = m := by
  rw [ofFields, check_return_eq_ok_iff, check_eq_ok_iff]

/-- Fields make a manifest exactly if they keep the rules. -/
theorem exists_ofFields_iff {fields : Manifest} :
    (∃ m, ofFields fields = .ok m) ↔ fields.WellFormed := by
  simp only [ofFields_eq_ok_iff, exists_and_left, exists_eq', and_true]

/-- **The manifests in JSON** are the members that keep the rules. -/
theorem ofJson_eq_ok_iff {j : Json} {m : Manifest} :
    ofJson j = .ok m ↔ members? j = some m ∧ m.WellFormed := by
  rw [ofJson]
  cases members? j with
  | none => simp only [reduceCtorEq, false_and]
  | some fields =>
    simp only [mapError_eq_ok_iff, ofFields_eq_ok_iff, Option.some.injEq]
    refine ⟨fun h ↦ ?_, fun h ↦ ?_⟩
    · obtain ⟨hrules, rfl⟩ := h
      exact ⟨rfl, hrules⟩
    · obtain ⟨rfl, hrules⟩ := h
      exact ⟨hrules, rfl⟩

/-! ## Whole seconds -/

/-- The manifest without the fractions of its times. -/
def wholeSecond (m : Manifest) : Manifest :=
  { m with window := ⟨m.window.thisUpdate.wholeSecond, m.window.nextUpdate.wholeSecond⟩ }

/-- The fractions of the times are not written. -/
theorem toTransfer_wholeSecond (m : Manifest) : m.wholeSecond.toTransfer = m.toTransfer := rfl

/-- The times of a manifest are whole seconds exactly if leaving out what is behind them changes
nothing. -/
theorem wholeSecond_eq_self_iff (m : Manifest) :
    m.wholeSecond = m ↔ m.window.thisUpdate.nanos = 0 ∧ m.window.nextUpdate.nanos = 0 := by
  rw [← Time.wholeSecond_eq_self_iff, ← Time.wholeSecond_eq_self_iff]
  refine ⟨fun h ↦ ?_, fun h ↦ ?_⟩
  · rw [← h]
    exact ⟨rfl, rfl⟩
  · obtain ⟨hthis, hnext⟩ := h
    rw [wholeSecond, hthis, hnext]

/-- The order of the times is the one rule that their fractions have a part in. -/
theorem wellFormed_iff_wholeSecond (m : Manifest) :
    m.WellFormed ↔ m.window.thisUpdate ≤ m.window.nextUpdate ∧ m.wholeSecond.WellFormed := by
  refine ⟨fun h ↦ ?_, fun h ↦ ?_⟩
  · have hseconds : m.window.thisUpdate.seconds ≤ m.window.nextUpdate.seconds := by
      have hle := Time.le_iff.mp h.update_le
      omega
    exact ⟨h.update_le, h.files_eq_nil, h.isValid_of_mem, h.ski_ne, h.aki_ne, h.aia_ne,
      Time.wholeSecond_le_wholeSecond hseconds⟩
  · obtain ⟨hle, hrules⟩ := h
    exact ⟨hrules.files_eq_nil, hrules.isValid_of_mem, hrules.ski_ne, hrules.aki_ne,
      hrules.aia_ne, hle⟩

/-! ## Both ways -/

/-- The lengths of the texts and of the list of a manifest fit into 64 bits. -/
structure HasLengths (m : Manifest) : Prop where
  path_lt : m.path.utf8ByteSize < 2 ^ 64
  files_lt : m.files.length < 2 ^ 64
  file_lt : ∀ e ∈ m.files, e.file.utf8ByteSize < 2 ^ 64
  ski_lt : m.ski.utf8ByteSize < 2 ^ 64
  aki_lt : m.aki.utf8ByteSize < 2 ^ 64
  aia_lt : (m.aia.getD "").utf8ByteSize < 2 ^ 64

theorem IsTransferable.hasLengths {m : Manifest} (h : m.IsTransferable) : m.HasLengths :=
  ⟨h.path_lt, h.files_lt, h.file_lt, h.ski_lt, h.aki_lt, h.aia_lt⟩

/-- A manifest comes back without its fractions exactly if it keeps the rules without them. -/
theorem ofTransfer_eq_wholeSecond_iff {m : Manifest} (h : m.HasLengths) :
    ofTransfer m.toTransfer = .ok m.wholeSecond ↔ m.wholeSecond.WellFormed := by
  rw [ofTransfer_eq_ok_iff]
  refine ⟨fun hm ↦ hm.1.wellFormed, fun hrules ↦ ⟨?_, toTransfer_wholeSecond m⟩⟩
  exact ⟨hrules, rfl, rfl, h.path_lt, h.files_lt, h.file_lt, h.ski_lt, h.aki_lt, h.aia_lt⟩

/-- A manifest comes back as it was exactly if it keeps the rules and has whole seconds. -/
theorem ofTransfer_eq_self_iff {m : Manifest} (h : m.HasLengths) :
    ofTransfer m.toTransfer = .ok m ↔
      m.WellFormed ∧ m.window.thisUpdate.nanos = 0 ∧ m.window.nextUpdate.nanos = 0 := by
  refine ⟨fun hback ↦ ?_, fun hm ↦ ?_⟩
  · obtain ⟨hm, -⟩ := ofTransfer_eq_ok_iff.mp hback
    exact ⟨hm.wellFormed, hm.thisNanos, hm.nextNanos⟩
  · obtain ⟨hrules, hnanos⟩ := hm
    have hback := ofTransfer_eq_wholeSecond_iff h
    rw [(wholeSecond_eq_self_iff m).mpr hnanos] at hback
    exact hback.mpr hrules

/-- **Fields make a manifest exactly if their transfer form can be read**, up to what is behind the
second.  They make one if the window does not end before it starts and what is read from the
transfer form are the fields without the fractions of the times.  The fields themselves come back
exactly if they make a manifest and there are no such fractions. -/
theorem ofFields_iff_ofTransfer {fields : Manifest} (h : fields.HasLengths) :
    ((∃ m, ofFields fields = .ok m) ↔
      fields.window.thisUpdate ≤ fields.window.nextUpdate ∧
        ofTransfer fields.toTransfer = .ok fields.wholeSecond) ∧
    (ofTransfer fields.toTransfer = .ok fields ↔
      (∃ m, ofFields fields = .ok m) ∧
        fields.window.thisUpdate.nanos = 0 ∧ fields.window.nextUpdate.nanos = 0) := by
  rw [exists_ofFields_iff]
  refine ⟨?_, ofTransfer_eq_self_iff h⟩
  rw [ofTransfer_eq_wholeSecond_iff h]
  exact wellFormed_iff_wholeSecond fields

/-- One file, and a window that starts half a second after a whole one. -/
theorem ofFields_iff_ofTransfer_one_file :
    let a : Time := ⟨1631880000, 500000000, by decide, by decide, by decide⟩
    let b : Time := ⟨1631966400, 0, by decide, by decide, by decide⟩
    let fields : Manifest := ⟨"a.mft", ⟨⟨List.replicate 20 1, rfl⟩⟩, ⟨a, b⟩, false,
      [⟨"a.roa", ⟨List.replicate 32 2, rfl⟩⟩], "AB", "CD", some "rsync://a/b.cer"⟩
    fields.HasLengths ∧ ofTransfer fields.toTransfer = .ok fields.wholeSecond ∧
      ofTransfer fields.toTransfer ≠ .ok fields := by
  intro a b fields
  have hlengths : fields.HasLengths := by
    refine ⟨?_, ?_, ?_, ?_, ?_, ?_⟩ <;> decide +kernel +zetaReduce
  have hboth := ofFields_iff_ofTransfer hlengths
  have hfields : ∃ m, ofFields fields = .ok m := ⟨fields, by decide +kernel +zetaReduce⟩
  have hnanos : fields.window.thisUpdate.nanos ≠ 0 := by decide +kernel +zetaReduce
  exact ⟨hlengths, (hboth.1.mp hfields).2, fun hself ↦ hnanos (hboth.2.mp hself).2.1⟩

/-- **The two ways differ behind the second.**  Fields that make a manifest need not come back from
their transfer form as they were: here the window starts half a second after a whole one. -/
theorem ofFields_ne_ofTransfer_of_fraction :
    let a : Time := ⟨1631880000, 500000000, by decide, by decide, by decide⟩
    let b : Time := ⟨1631966400, 0, by decide, by decide, by decide⟩
    let fields : Manifest := ⟨"a.mft", ⟨⟨List.replicate 20 1, rfl⟩⟩, ⟨a, b⟩, false,
      [⟨"a.roa", ⟨List.replicate 32 2, rfl⟩⟩], "AB", "CD", some "rsync://a/b.cer"⟩
    ¬ ((∃ m, ofFields fields = .ok m) ↔ ofTransfer fields.toTransfer = .ok fields) := by
  intro a b fields hiff
  have hfields : ofFields fields = .ok fields := by decide +kernel +zetaReduce
  have hback : ofTransfer fields.toTransfer ≠ .ok fields := by decide +kernel +zetaReduce
  exact hback (hiff.mp ⟨fields, hfields⟩)

end Manifest

end Rpki
