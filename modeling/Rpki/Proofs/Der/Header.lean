import Rpki.Der.Header
import Rpki.Proofs.Octets

/-!
# Headers have one spelling

Reading takes a header off the front of octets exactly if the octets start with what is written for
it.  This is shown for the three parts in turn.

* `Tag.read?_eq_some_iff`: an identifier.  `Tag.IsRegular` says which tags there are to be read; the
  others differ from them in the constructed bit, or in how they go on behind the first octet.
* `Length.read?_definite_iff`: a definite length.  The bound is that of four octets.
* `Header.read?_definite_iff` and `Header.read?_indefinite_iff`: both together.

All further statements about DER are made with these, so none of them looks at a bit again.
-/

set_option autoImplicit false

namespace Rpki

namespace Der

/-! ## Identifiers -/

namespace Tag

/-- Octets that spell a number behind the first octet of an identifier: at most `limit` of them, of
which the last one is the first without its high bit. -/
def IsNumber : Nat → Octets → Prop
  | 0, _ => False
  | _, [] => False
  | limit + 1, b :: rest => if b &&& 0x80 = 0 then rest = [] else IsNumber limit rest

/-- The tag of some identifier: the constructed bit is clear, and there are further octets exactly
if the low five bits of the first one are set. -/
def IsRegular (t : Tag) : Prop :=
  t.leading &&& 0x20 = 0 ∧
    if t.leading &&& 0x1F = 0x1F then IsNumber 3 t.following else t.following = []

theorem readFollowing?_eq_some_iff {limit : Nat} {s o rest : Octets} :
    readFollowing? limit s = some (o, rest) ↔ IsNumber limit o ∧ s = o ++ rest := by
  induction limit generalizing s o with
  | zero => simp [readFollowing?, IsNumber]
  | succ limit ih =>
    cases s with
    | nil =>
      have hno : ¬ (IsNumber (limit + 1) o ∧ [] = o ++ rest) := by
        rintro ⟨hnum, heq⟩
        obtain ⟨rfl, -⟩ := List.append_eq_nil_iff.mp heq.symm
        exact hnum
      simp only [readFollowing?, reduceCtorEq, hno]
    | cons b s =>
      rw [readFollowing?]
      by_cases hb : b &&& 0x80 = 0
      · rw [if_pos hb]
        refine ⟨fun h ↦ ?_, fun h ↦ ?_⟩
        · obtain ⟨rfl, rfl⟩ := Prod.mk.inj (Option.some.inj h)
          exact ⟨by rw [IsNumber, if_pos hb], rfl⟩
        · obtain ⟨hnum, heq⟩ := h
          cases o with
          | nil => exact absurd hnum (by simp [IsNumber])
          | cons c o =>
            obtain ⟨rfl, rfl⟩ := List.cons.inj heq
            rw [IsNumber, if_pos hb] at hnum
            subst hnum
            rfl
      · rw [if_neg hb, Option.map_eq_some_iff]
        refine ⟨fun h ↦ ?_, fun h ↦ ?_⟩
        · obtain ⟨⟨more, rest'⟩, hread, heq⟩ := h
          obtain ⟨rfl, rfl⟩ := Prod.mk.inj heq
          obtain ⟨hnum, rfl⟩ := ih.mp hread
          exact ⟨by rw [IsNumber, if_neg hb]; exact hnum, rfl⟩
        · obtain ⟨hnum, heq⟩ := h
          cases o with
          | nil => exact absurd hnum (by simp [IsNumber])
          | cons c o =>
            obtain ⟨rfl, rfl⟩ := List.cons.inj heq
            rw [IsNumber, if_neg hb] at hnum
            exact ⟨(o, rest), ih.mpr ⟨hnum, rfl⟩, rfl⟩

/-- Taking the constructed bit out of an octet and putting it back changes nothing. -/
theorem join_split : ∀ first : UInt8,
    (if first &&& 0x20 != 0 then (first &&& 0xDF) ||| 0x20 else first &&& 0xDF) = first ∧
      (first &&& 0xDF) &&& 0x20 = 0 ∧ (first &&& 0xDF) &&& 0x1F = first &&& 0x1F :=
  forall_octet (by decide +kernel)

/-- Putting the constructed bit into an octet that has it clear leaves the other bits alone. -/
theorem split_join (c : Bool) : ∀ leading : UInt8, leading &&& 0x20 = 0 →
    ((if c then leading ||| 0x20 else leading) &&& 0x20 != 0) = c ∧
      (if c then leading ||| 0x20 else leading) &&& 0xDF = leading ∧
      (if c then leading ||| 0x20 else leading) &&& 0x1F = leading &&& 0x1F := by
  cases c
  · exact forall_octet (by decide +kernel)
  · exact forall_octet (by decide +kernel)

/-- **An identifier is read exactly from what is written for it.** -/
theorem read?_eq_some_iff {s rest : Octets} {t : Tag} {c : Bool} :
    read? s = some ((t, c), rest) ↔ t.IsRegular ∧ s = t.octets c ++ rest := by
  obtain ⟨leading, following⟩ := t
  refine ⟨fun h ↦ ?_, fun h ↦ ?_⟩
  · cases s with
    | nil => simp [read?] at h
    | cons first s =>
      obtain ⟨hjoin, hclear, hlow⟩ := join_split first
      simp only [read?] at h
      split at h
      · next hlong =>
        obtain ⟨⟨more, rest'⟩, hread, heq⟩ := Option.map_eq_some_iff.mp h
        simp only [Prod.mk.injEq, Tag.mk.injEq] at heq
        obtain ⟨⟨⟨rfl, rfl⟩, rfl⟩, rfl⟩ := heq
        obtain ⟨hnum, rfl⟩ := readFollowing?_eq_some_iff.mp hread
        exact ⟨⟨hclear, by rw [hlow, if_pos hlong]; exact hnum⟩, by rw [octets, hjoin]; rfl⟩
      · next hshort =>
        simp only [Option.some.injEq, Prod.mk.injEq, Tag.mk.injEq] at h
        obtain ⟨⟨⟨rfl, rfl⟩, rfl⟩, rfl⟩ := h
        exact ⟨⟨hclear, by rw [hlow, if_neg hshort]⟩, by rw [octets, hjoin]; rfl⟩
  · obtain ⟨⟨hclear, hfollowing⟩, rfl⟩ := h
    obtain ⟨hbit, hlead, hlow⟩ := split_join c leading hclear
    simp only [octets, List.cons_append, read?, hbit, hlead, hlow]
    dsimp only at hfollowing
    split at hfollowing
    · next hlong =>
      rw [if_pos hlong, readFollowing?_eq_some_iff.mpr ⟨hfollowing, rfl⟩]
      rfl
    · next hshort =>
      rw [if_neg hshort, hfollowing]
      rfl

theorem length_octets (t : Tag) (c : Bool) : (t.octets c).length = t.following.length + 1 := rfl

/-- The tags with a single octet are regular if they leave the constructed bit clear. -/
theorem isRegular_mk {leading : UInt8} (h : leading &&& 0x20 = 0) (hlow : leading &&& 0x1F ≠ 0x1F) :
    IsRegular ⟨leading, []⟩ :=
  ⟨h, by rw [if_neg hlow]⟩

end Tag

/-! ## Lengths -/

namespace Length

theorem width_le (n : Nat) : width n ≤ 4 := by
  unfold width
  split
  · omega
  split
  · omega
  split
  · omega
  split <;> omega

/-- The number of octets that the shortest form takes is the one that is read for it. -/
theorem width_eq {w n : Nat} (hpos : 1 ≤ w) (hle : w ≤ 4) (hleast : least w ≤ n)
    (hlt : n < 256 ^ w) : width n = w := by
  obtain rfl | rfl | rfl | rfl : w = 1 ∨ w = 2 ∨ w = 3 ∨ w = 4 := by omega
  all_goals
    simp only [least, Nat.pow_eq, Nat.reduceLeDiff, ↓reduceIte, Nat.reducePow, Nat.reduceSub]
      at hleast hlt
    unfold width
  · rw [if_neg (by omega), if_pos (by omega)]
  · rw [if_neg (by omega), if_neg (by omega), if_pos (by omega)]
  · rw [if_neg (by omega), if_neg (by omega), if_neg (by omega), if_pos (by omega)]
  · rw [if_neg (by omega), if_neg (by omega), if_neg (by omega), if_neg (by omega)]

/-- A length of more than one octet fits into the further ones, and needs all of them. -/
theorem width_spec {n : Nat} (hge : 0x80 ≤ n) (hlt : n < 2 ^ 32) :
    1 ≤ width n ∧ least (width n) ≤ n ∧ n < 256 ^ width n := by
  unfold width
  rw [if_neg (by omega)]
  split
  · exact ⟨by omega, hge, by omega⟩
  split
  · exact ⟨by omega, show 0x100 ≤ n by omega, by omega⟩
  split
  · exact ⟨by omega, show 0x10000 ≤ n by omega, by omega⟩
  · exact ⟨by omega, show 0x1000000 ≤ n by omega, by omega⟩

theorem length_octets (n : Nat) : (octets n).length = width n + 1 := by
  unfold octets
  split
  · next h => rw [width, if_pos h, List.length_singleton]
  · rw [List.length_cons, Octets.length_ofBigEndian]

/-- A number in as few octets as possible is written as these octets, with their number in front. -/
theorem octets_bigEndian {o : Octets} (hpos : 1 ≤ o.length) (hle : o.length ≤ 4)
    (hleast : least o.length ≤ o.bigEndian) :
    o.bigEndian < 2 ^ 32 ∧ octets o.bigEndian = UInt8.ofNat (0x80 + o.length) :: o := by
  have hlt := Octets.bigEndian_lt o
  have hwidth : width o.bigEndian = o.length := width_eq hpos hle hleast hlt
  have hbig : ¬ o.bigEndian < 0x80 := by
    intro hsmall
    rw [width, if_pos hsmall] at hwidth
    omega
  have hbound : 256 ^ o.length ≤ 2 ^ 32 := Nat.pow_le_pow_right (n := 256) (by decide) hle
  refine ⟨Nat.lt_of_lt_of_le hlt hbound, ?_⟩
  rw [octets, if_neg hbig, hwidth, Octets.ofBigEndian_bigEndian]

/-- The octet in front of the further ones holds their number. -/
theorem toNat_first (n : Nat) : (UInt8.ofNat (0x80 + width n)).toNat = 0x80 + width n := by
  have hle := width_le n
  exact UInt8.toNat_ofNat_of_lt' (show 0x80 + width n < 256 by omega)

/-- The length that is written is read. -/
theorem read?_octets {n : Nat} (h : n < 2 ^ 32) (rest : Octets) :
    read? (octets n ++ rest) = some (.definite n, rest) := by
  by_cases hsmall : n < 0x80
  · have hn : (UInt8.ofNat n).toNat = n :=
      UInt8.toNat_ofNat_of_lt' (Nat.lt_trans hsmall (by decide))
    have hshort : UInt8.ofNat n < 0x80 := by rw [UInt8.lt_iff_toNat_lt, hn]; exact hsmall
    rw [octets, if_pos hsmall, List.singleton_append, read?, if_pos hshort, hn]
  · obtain ⟨hpos, hleast, hfits⟩ := width_spec (by omega) h
    have hw := width_le n
    have hfirst := toNat_first n
    have hlong : ¬ UInt8.ofNat (0x80 + width n) < 0x80 := by
      rw [UInt8.lt_iff_toNat_lt, hfirst]
      exact Nat.not_lt.mpr (Nat.le_add_right 0x80 _)
    have hclosed : UInt8.ofNat (0x80 + width n) ≠ 0x80 := by
      intro heq
      have := congrArg UInt8.toNat heq
      rw [hfirst] at this
      exact absurd this (by simp; omega)
    have hmax : UInt8.ofNat (0x80 + width n) ≤ 0x84 := by
      rw [UInt8.le_iff_toNat_le, hfirst]
      exact Nat.add_le_add_left hw 0x80
    have htake : FixedOctets.take? (width n) (Octets.ofBigEndian (width n) n ++ rest) =
        some (⟨Octets.ofBigEndian (width n) n, Octets.length_ofBigEndian _ _⟩, rest) :=
      FixedOctets.take?_eq_some_iff.mpr rfl
    rw [octets, if_neg hsmall, List.cons_append, read?, if_neg hlong, if_neg hclosed,
      if_pos hmax, hfirst, Nat.add_sub_cancel_left]
    dsimp only
    rw [htake]
    dsimp only
    rw [Octets.bigEndian_ofBigEndian hfits, if_pos hleast]

/-- **A definite length is read exactly from what is written for it.** -/
theorem read?_definite_iff {s rest : Octets} {n : Nat} :
    read? s = some (.definite n, rest) ↔ n < 2 ^ 32 ∧ s = octets n ++ rest := by
  refine ⟨fun h ↦ ?_, fun h ↦ ?_⟩
  · cases s with
    | nil => simp [read?] at h
    | cons first s =>
      rw [read?] at h
      split at h
      · next hshort =>
        simp only [Option.some.injEq, Prod.mk.injEq, definite.injEq] at h
        obtain ⟨rfl, rfl⟩ := h
        have hlt : first.toNat < 0x80 := UInt8.lt_iff_toNat_lt.mp hshort
        exact ⟨by omega, by rw [octets, if_pos hlt, UInt8.ofNat_toNat]; rfl⟩
      split at h
      · simp at h
      split at h
      · next hshort hopen hlong =>
        have hge : ¬ first.toNat < 0x80 := fun hlt ↦ hshort (UInt8.lt_iff_toNat_lt.mpr hlt)
        have hne : first.toNat ≠ 0x80 := fun heq ↦ hopen (UInt8.toNat_inj.mp heq)
        have hle : first.toNat ≤ 0x84 := UInt8.le_iff_toNat_le.mp hlong
        dsimp only at h
        split at h
        · simp at h
        · next o rest' htake =>
          rw [FixedOctets.take?_eq_some_iff] at htake
          split at h
          · next hleast =>
            simp only [Option.some.injEq, Prod.mk.injEq, definite.injEq] at h
            obtain ⟨rfl, rfl⟩ := h
            have hlen := o.property
            have hfirst : 0x80 + o.val.length = first.toNat := by omega
            obtain ⟨hlt, hoctets⟩ :=
              octets_bigEndian (o := o.val) (by omega) (by omega) (by rwa [hlen])
            refine ⟨hlt, ?_⟩
            rw [hoctets, hfirst, UInt8.ofNat_toNat, htake, List.cons_append]
          · simp at h
      · simp at h
  · obtain ⟨hlt, rfl⟩ := h
    exact read?_octets hlt rest

/-- The indefinite length is a single octet. -/
theorem read?_indefinite_iff {s rest : Octets} :
    read? s = some (.indefinite, rest) ↔ s = 0x80 :: rest := by
  constructor
  · intro h
    cases s with
    | nil => simp [read?] at h
    | cons first s =>
      rw [read?] at h
      split at h
      · simp at h
      split at h
      · next hopen =>
        simp only [Option.some.injEq, Prod.mk.injEq, true_and] at h
        rw [hopen, h]
      split at h
      · dsimp only at h
        split at h
        · simp at h
        split at h <;> simp at h
      · simp at h
  · rintro rfl
    rfl

end Length

/-! ## Headers -/

namespace Header

theorem read?_eq_some_iff {s rest : Octets} {h : Header} :
    read? s = some (h, rest) ↔
      ∃ body, Tag.read? s = some ((h.tag, h.constructed), body) ∧
        Length.read? body = some (h.length, rest) := by
  obtain ⟨tag, constructed, length⟩ := h
  constructor
  · intro hread
    simp only [read?, Option.bind_eq_bind, Option.bind_eq_some_iff, Option.pure_def,
      Option.some.injEq, Prod.mk.injEq, Header.mk.injEq] at hread
    obtain ⟨⟨⟨tag', constructed'⟩, body⟩, htag, ⟨length', rest'⟩, hlength, heq, rfl⟩ := hread
    obtain ⟨rfl, rfl, rfl⟩ := heq
    exact ⟨body, htag, hlength⟩
  · rintro ⟨body, htag, hlength⟩
    dsimp only at htag hlength
    simp only [read?, htag, hlength, Option.bind_eq_bind, Option.bind_some, Option.pure_def]

/-- **A header with a definite length is read exactly from what is written for it.** -/
theorem read?_definite_iff {s rest : Octets} {t : Tag} {c : Bool} {n : Nat} :
    read? s = some (⟨t, c, .definite n⟩, rest) ↔
      t.IsRegular ∧ n < 2 ^ 32 ∧ s = t.octets c ++ Length.octets n ++ rest := by
  rw [read?_eq_some_iff]
  refine ⟨fun h ↦ ?_, fun h ↦ ?_⟩
  · obtain ⟨body, htag, hlength⟩ := h
    obtain ⟨hregular, rfl⟩ := Tag.read?_eq_some_iff.mp htag
    obtain ⟨hlt, rfl⟩ := Length.read?_definite_iff.mp hlength
    exact ⟨hregular, hlt, (List.append_assoc _ _ _).symm⟩
  · obtain ⟨hregular, hlt, rfl⟩ := h
    exact ⟨Length.octets n ++ rest,
      Tag.read?_eq_some_iff.mpr ⟨hregular, List.append_assoc _ _ _⟩,
      Length.read?_definite_iff.mpr ⟨hlt, rfl⟩⟩

/-- A header with the indefinite length is read exactly from what is written for it. -/
theorem read?_indefinite_iff {s rest : Octets} {t : Tag} {c : Bool} :
    read? s = some (⟨t, c, .indefinite⟩, rest) ↔
      t.IsRegular ∧ s = t.octets c ++ 0x80 :: rest := by
  rw [read?_eq_some_iff]
  refine ⟨fun h ↦ ?_, fun h ↦ ?_⟩
  · obtain ⟨body, htag, hlength⟩ := h
    obtain ⟨hregular, rfl⟩ := Tag.read?_eq_some_iff.mp htag
    exact ⟨hregular, by rw [Length.read?_indefinite_iff.mp hlength]⟩
  · obtain ⟨hregular, rfl⟩ := h
    exact ⟨0x80 :: rest, Tag.read?_eq_some_iff.mpr ⟨hregular, rfl⟩,
      Length.read?_indefinite_iff.mpr rfl⟩

end Header

end Der

end Rpki
