import Rpki.Manifest.Number
import Rpki.Proofs.Der.Content
import Rpki.Proofs.Der.Sequence

/-!
# Manifest numbers have one spelling

An INTEGER has as few octets as possible, and a number is written without the zeros in front but for
the one that keeps it from being negative.  `ManifestNumber.ofInteger_eq_ok_iff` says that these are
the same: a number is read exactly from the content that is written for it.
-/

set_option autoImplicit false

namespace Rpki

namespace Octets

/-! ## Zeros in front -/

theorem significant_cons_zero (o : Octets) : significant (0 :: o) = significant o := rfl

theorem significant_cons_of_ne {b : UInt8} (h : b ≠ 0) (o : Octets) :
    significant (b :: o) = b :: o := by
  rw [significant, List.dropWhile_cons_of_neg (by simpa using h)]

theorem significant_replicate_append (k : Nat) (o : Octets) :
    significant (List.replicate k 0 ++ o) = significant o := by
  induction k with
  | zero => rfl
  | succ k ih => rw [List.replicate_succ, List.cons_append, significant_cons_zero, ih]

theorem ne_zero_of_significant_eq_cons {o rest : Octets} {b : UInt8}
    (h : significant o = b :: rest) : b ≠ 0 := by
  induction o with
  | nil => simp [significant] at h
  | cons a o ih =>
    by_cases ha : a = 0
    · rw [ha, significant_cons_zero] at h
      exact ih h
    · rw [significant_cons_of_ne ha] at h
      rwa [← (List.cons.inj h).1]

theorem significant_significant (o : Octets) : significant (significant o) = significant o := by
  cases h : significant o with
  | nil => rfl
  | cons b rest => exact significant_cons_of_ne (ne_zero_of_significant_eq_cons h) rest

/-- What is not significant is zeros. -/
theorem replicate_append_significant (o : Octets) :
    List.replicate (o.length - (significant o).length) 0 ++ significant o = o := by
  induction o with
  | nil => rfl
  | cons a o ih =>
    by_cases ha : a = 0
    · have hle : (significant o).length ≤ o.length := (List.dropWhile_suffix _).length_le
      rw [ha, significant_cons_zero, List.length_cons, Nat.succ_sub hle, List.replicate_succ,
        List.cons_append, ih]
    · rw [significant_cons_of_ne ha, Nat.sub_self]
      rfl

end Octets

namespace ManifestNumber

/-! ## Numbers from octets -/

theorem length_significant_le (n : ManifestNumber) : n.significant.length ≤ 20 := by
  have hle : n.significant.length ≤ n.octets.val.length := (List.dropWhile_suffix _).length_le
  rwa [n.octets.property] at hle

theorem significant_padLeft {o : Octets} (h : o.length ≤ 20) :
    significant ⟨.padLeft 20 o h⟩ = o.significant :=
  Octets.significant_replicate_append _ o

theorem padLeft_significant (n : ManifestNumber) :
    (⟨.padLeft 20 n.significant n.length_significant_le⟩ : ManifestNumber) = n := by
  obtain ⟨o, ho⟩ := n
  have hpad := Octets.replicate_append_significant o
  rw [ho] at hpad
  exact congrArg ManifestNumber.mk (Subtype.ext hpad)

/-- A number is read from all octets that are the same without the zeros in front. -/
theorem ofOctets_eq_ok_iff {o : Octets} {n : ManifestNumber} :
    ofOctets o = .ok n ↔ o.significant = n.significant := by
  rw [ofOctets]
  refine ⟨fun h ↦ ?_, fun h ↦ ?_⟩
  · split at h
    · obtain rfl := Except.ok.inj h
      rw [significant_padLeft, Octets.significant_significant]
    · exact nomatch h
  · have hlen : o.significant.length ≤ 20 := h ▸ n.length_significant_le
    rw [dif_pos hlen, Except.ok.injEq]
    simp only [h, padLeft_significant]

/-! ## Numbers from INTEGERs -/

theorem significant_content (n : ManifestNumber) :
    Octets.significant n.content = n.significant := by
  have hidem : Octets.significant n.significant = n.significant :=
    Octets.significant_significant n.octets.val
  rw [content]
  split
  · rw [Octets.significant_cons_zero, hidem]
  · exact hidem

theorem headD_content_lt (n : ManifestNumber) : n.content.headD 0 < 0x80 := by
  rw [content, needsPad]
  cases n.significant with
  | nil => decide
  | cons b rest =>
    dsimp only
    split
    · exact (by decide : (0 : UInt8) < 0x80)
    · next h => simpa using h

/-- The content of a number is as short as can be. -/
theorem isShortest_content (n : ManifestNumber) : Der.Integer.isShortest n.content = true := by
  rw [content, needsPad]
  cases h : n.significant with
  | nil => rfl
  | cons b rest =>
    have hb : b ≠ 0 := Octets.ne_zero_of_significant_eq_cons h
    dsimp only
    split
    · next hpad =>
      have hge : ¬ b < 0x80 := by simpa using hpad
      simp [Der.Integer.isShortest, hge]
    · next hpad =>
      have hne : b ≠ 0xFF := by
        rintro rfl
        exact hpad (by decide)
      cases rest with
      | nil => rfl
      | cons c rest => simp [Der.Integer.isShortest, hb, hne]

/-- The octets of an INTEGER that is not negative are determined by what is significant of them. -/
theorem eq_content_of_significant_eq {i : Der.Integer} {n : ManifestNumber}
    (hsign : i.isNegative = false) (h : i.octets.significant = n.significant) :
    i.octets = n.content := by
  obtain ⟨o, hshort⟩ := i
  dsimp only at h ⊢
  rw [Der.Integer.isNegative, decide_eq_false_iff_not, UInt8.not_le] at hsign
  rw [content, needsPad, ← h]
  cases o with
  | nil => exact absurd hshort (by simp [Der.Integer.isShortest])
  | cons a o =>
    by_cases ha : a = 0
    · subst ha
      cases o with
      | nil => rfl
      | cons b rest =>
        have hb : 0x80 ≤ b := by simpa [Der.Integer.isShortest] using hshort
        have hne : b ≠ 0 := by
          rintro rfl
          exact absurd hb (by decide)
        simp only [Octets.significant_cons_zero, Octets.significant_cons_of_ne hne, hb,
          decide_true, ↓reduceIte]
    · have hlt : ¬ 0x80 ≤ a := UInt8.not_le.mpr hsign
      simp only [Octets.significant_cons_of_ne ha, hlt, decide_false, Bool.false_eq_true,
        ↓reduceIte]

/-- **A number is read exactly from the INTEGER that is written for it.** -/
theorem ofInteger_eq_ok_iff {i : Der.Integer} {n : ManifestNumber} :
    ofInteger i = .ok n ↔ i.octets = n.content := by
  rw [ofInteger]
  refine ⟨fun h ↦ ?_, fun h ↦ ?_⟩
  · split at h
    · exact nomatch h
    · next hsign =>
      exact eq_content_of_significant_eq (Bool.not_eq_true _ ▸ hsign) (ofOctets_eq_ok_iff.mp h)
  · have hsign : ¬ i.isNegative = true := by
      rw [Der.Integer.isNegative, h, decide_eq_true_eq, UInt8.not_le]
      exact n.headD_content_lt
    rw [if_neg hsign, ofOctets_eq_ok_iff, h, significant_content]

/-- A number is read from a sequence exactly if the INTEGER at the position is its own. -/
theorem exists_integer_iff {s : Der.Sequence} {position : Nat} {n : ManifestNumber} :
    (∃ i, s.integer position = .ok i ∧ ofInteger i = .ok n) ↔
      s[position]? = some ⟨.integer, false, n.content⟩ := by
  simp only [Der.Sequence.integer, Der.Sequence.contentAt_eq_ok_iff, ofInteger_eq_ok_iff]
  constructor
  · rintro ⟨i, ⟨content, hget, hread⟩, hi⟩
    rw [← Der.Integer.read?_eq_some_iff.mp hread, hi] at hget
    exact hget
  · intro hget
    exact ⟨⟨n.content, n.isShortest_content⟩,
      ⟨_, hget, Der.Integer.read?_eq_some_iff.mpr rfl⟩, rfl⟩

end ManifestNumber

end Rpki
