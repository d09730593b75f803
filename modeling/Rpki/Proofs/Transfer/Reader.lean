import Rpki.Proofs.Octets
import Rpki.Proofs.Time.Basic
import Rpki.Transfer.Reader
import Rpki.Transfer.Writer

/-!
# Every field has one spelling

What a reader of the transfer form takes for a value is what the writer of the same name writes for
it, and nothing else.  There is one equivalence for each reader, of the shape

`read s = (.ok a, rest) ↔ (a can be read) ∧ s = write a ++ rest`,

and `Reader.bind_eq_ok_iff` puts them together along a `do` block.  Most values can be read whatever
they are.  The exceptions are texts and lists whose length does not fit into 64 bits, a text that is
there although it is empty, and times with a fraction.
-/

set_option autoImplicit false

namespace Rpki

namespace Transfer

namespace Reader

variable {α β : Type} {s rest : Octets}

theorem run_eq_ok_iff {r : Reader α} {a : α} : r.run s = .ok a ↔ ∃ rest, r s = (.ok a, rest) := by
  rw [run]
  refine ⟨fun h ↦ ?_, fun h ↦ ?_⟩
  · exact ⟨(r s).2, Prod.ext h rfl⟩
  · obtain ⟨rest, h⟩ := h
    rw [h]

/-- What is in front of some octets and behind it is the same for whoever reads it. -/
theorem eq_of_eq_ok {r : Reader α} {a a' : α} {rest' : Octets} (h : r s = (.ok a, rest))
    (h' : r s = (.ok a', rest')) : a = a' ∧ rest = rest' := by
  obtain ⟨ha, hrest⟩ := Prod.mk.inj (h.symm.trans h')
  exact ⟨Except.ok.inj ha, hrest⟩

/-! ## Readers one after the other -/

theorem bind_apply (r : Reader α) (next : α → Reader β) (s : Octets) :
    (r >>= next) s =
      match r s with
      | (.ok a, mid) => next a mid
      | (.error e, mid) => (.error e, mid) :=
  rfl

theorem bind_eq_ok_iff {r : Reader α} {next : α → Reader β} {b : β} :
    (r >>= next) s = (.ok b, rest) ↔
      ∃ a mid, r s = (.ok a, mid) ∧ next a mid = (.ok b, rest) := by
  rw [bind_apply]
  refine ⟨fun h ↦ ?_, fun h ↦ ?_⟩
  · split at h
    · next a mid hr => exact ⟨a, mid, hr, h⟩
    · simp at h
  · obtain ⟨a, mid, hr, hnext⟩ := h
    rw [hr]
    exact hnext

theorem pure_eq_ok_iff {a b : α} : (pure a : Reader α) s = (.ok b, rest) ↔ a = b ∧ s = rest := by
  have hpure : (pure a : Reader α) s = (.ok a, s) := rfl
  rw [hpure, Prod.mk.injEq, Except.ok.injEq]

theorem fail_ne_ok {e : TransferError} {a : α} : fail e s ≠ (.ok a, rest) := by
  simp [fail]

/-- What is made of a value afterwards changes the value and nothing else. -/
theorem map_eq_ok_iff {r : Reader α} {f : α → β} {b : β} :
    (do return f (← r) : Reader β) s = (.ok b, rest) ↔ ∃ a, r s = (.ok a, rest) ∧ f a = b := by
  simp only [bind_eq_ok_iff, pure_eq_ok_iff]
  refine ⟨fun h ↦ ?_, fun h ↦ ?_⟩
  · obtain ⟨a, _, hr, hf, rfl⟩ := h
    exact ⟨a, hr, hf⟩
  · obtain ⟨a, hr, hf⟩ := h
    exact ⟨a, rest, hr, hf, rfl⟩

/-! ## Octets and numbers -/

theorem fixed_eq_ok_iff {n : Nat} {o : FixedOctets n} :
    fixed n s = (.ok o, rest) ↔ s = o.val ++ rest := by
  rw [← FixedOctets.take?_eq_some_iff, fixed]
  cases FixedOctets.take? n s with
  | none => simp
  | some p => simp [Prod.ext_iff]

theorem number_eq_ok_iff {width n : Nat} :
    number width s = (.ok n, rest) ↔
      n < 256 ^ width ∧ s = Octets.ofLittleEndian width n ++ rest := by
  rw [number, map_eq_ok_iff]
  simp only [fixed_eq_ok_iff]
  refine ⟨fun h ↦ ?_, fun h ↦ ?_⟩
  · obtain ⟨⟨o, rfl⟩, rfl, rfl⟩ := h
    exact ⟨Octets.littleEndian_lt o, by rw [Octets.ofLittleEndian_littleEndian]⟩
  · obtain ⟨hlt, rfl⟩ := h
    exact ⟨⟨_, Octets.length_ofLittleEndian width n⟩, rfl, Octets.littleEndian_ofLittleEndian hlt⟩

/-- Machine numbers of all widths are read in the same way. -/
theorem map_number_eq_ok_iff {width : Nat} {ofNat : Nat → α} {toNat : α → Nat}
    (hlt : ∀ a, toNat a < 256 ^ width) (hofNat : ∀ a, ofNat (toNat a) = a)
    (htoNat : ∀ n, n < 256 ^ width → toNat (ofNat n) = n) {a : α} :
    (do return ofNat (← number width) : Reader α) s = (.ok a, rest) ↔
      s = Octets.ofLittleEndian width (toNat a) ++ rest := by
  rw [map_eq_ok_iff]
  simp only [number_eq_ok_iff]
  constructor
  · rintro ⟨n, ⟨hn, rfl⟩, rfl⟩
    rw [htoNat n hn]
  · rintro rfl
    exact ⟨toNat a, ⟨hlt a, rfl⟩, hofNat a⟩

theorem uint8_eq_ok_iff {n : UInt8} : uint8 s = (.ok n, rest) ↔ s = Writer.uint8 n ++ rest := by
  have hwrite : Writer.uint8 n = Octets.ofLittleEndian 1 n.toNat :=
    congrArg (fun b ↦ [b]) UInt8.ofNat_toNat.symm
  rw [hwrite]
  exact map_number_eq_ok_iff (fun n ↦ n.toNat_lt) (fun _ ↦ UInt8.ofNat_toNat)
    fun _ h ↦ UInt8.toNat_ofNat_of_lt' h

theorem uint16_eq_ok_iff {n : UInt16} : uint16 s = (.ok n, rest) ↔ s = Writer.uint16 n ++ rest :=
  map_number_eq_ok_iff (fun n ↦ n.toNat_lt) (fun _ ↦ UInt16.ofNat_toNat)
    fun _ h ↦ UInt16.toNat_ofNat_of_lt' h

theorem uint32_eq_ok_iff {n : UInt32} : uint32 s = (.ok n, rest) ↔ s = Writer.uint32 n ++ rest :=
  map_number_eq_ok_iff (fun n ↦ n.toNat_lt) (fun _ ↦ UInt32.ofNat_toNat)
    fun _ h ↦ UInt32.toNat_ofNat_of_lt' h

theorem uint64_eq_ok_iff {n : UInt64} : uint64 s = (.ok n, rest) ↔ s = Writer.uint64 n ++ rest :=
  map_number_eq_ok_iff (fun n ↦ n.toNat_lt) (fun _ ↦ UInt64.ofNat_toNat)
    fun _ h ↦ UInt64.toNat_ofNat_of_lt' h

theorem int32_eq_ok_iff {n : Int32} : int32 s = (.ok n, rest) ↔ s = Writer.int32 n ++ rest := by
  rw [int32, map_eq_ok_iff]
  simp only [uint32_eq_ok_iff]
  constructor
  · rintro ⟨_, rfl, rfl⟩
    rfl
  · rintro rfl
    exact ⟨n.toUInt32, rfl, rfl⟩

theorem int64_eq_ok_iff {n : Int64} : int64 s = (.ok n, rest) ↔ s = Writer.int64 n ++ rest := by
  rw [int64, map_eq_ok_iff]
  simp only [uint64_eq_ok_iff]
  constructor
  · rintro ⟨_, rfl, rfl⟩
    rfl
  · rintro rfl
    exact ⟨n.toUInt64, rfl, rfl⟩

/-- **There are two flags**, and each is one number. -/
theorem flag_eq_ok_iff {b : Bool} : flag s = (.ok b, rest) ↔ s = Writer.flag b ++ rest := by
  simp only [flag, bind_eq_ok_iff, int32_eq_ok_iff]
  constructor
  · rintro ⟨n, mid, rfl, h⟩
    split at h
    · next hn =>
      obtain ⟨rfl, rfl⟩ := pure_eq_ok_iff.mp h
      rw [hn]
      rfl
    split at h
    · next hn =>
      obtain ⟨rfl, rfl⟩ := pure_eq_ok_iff.mp h
      rw [hn]
      rfl
    · exact absurd h fail_ne_ok
  · rintro rfl
    refine ⟨if b then 1 else 0, rest, rfl, ?_⟩
    cases b with
    | false => exact pure_eq_ok_iff.mpr ⟨rfl, rfl⟩
    | true => exact pure_eq_ok_iff.mpr ⟨rfl, rfl⟩

theorem expect_eq_ok_iff {n : Nat} {u : Unit} :
    expect n s = (.ok u, rest) ↔ n ≤ s.length ∧ s = rest := by
  rw [expect]
  split
  · next h => simp [h]
  · next h => simp [h]

/-- The number of items is the one that is written, and the octets behind it are enough for as many
items. -/
theorem count_eq_ok_iff {itemLength n : Nat} :
    count itemLength s = (.ok n, rest) ↔
      n < 2 ^ 64 ∧ n * itemLength ≤ rest.length ∧ s = Writer.length n ++ rest := by
  simp only [count, bind_eq_ok_iff, uint64_eq_ok_iff, expect_eq_ok_iff, pure_eq_ok_iff]
  refine ⟨fun h ↦ ?_, fun h ↦ ?_⟩
  · obtain ⟨k, _, rfl, _, _, ⟨hle, rfl⟩, rfl, rfl⟩ := h
    rw [Writer.length, UInt64.ofNat_toNat]
    exact ⟨k.toNat_lt, hle, rfl⟩
  · obtain ⟨hlt, hle, rfl⟩ := h
    have hn : (UInt64.ofNat n).toNat = n := UInt64.toNat_ofNat_of_lt' hlt
    exact ⟨UInt64.ofNat n, rest, rfl, (), rest, ⟨by rwa [hn], rfl⟩, hn, rfl⟩

/-! ## Texts, times and lists -/

/-- **A text is read exactly from its UTF-8 form** with its length in front. -/
theorem string_eq_ok_iff {text : String} :
    string s = (.ok text, rest) ↔
      text.utf8ByteSize < 2 ^ 64 ∧ s = Writer.string text ++ rest := by
  simp only [string, bind_eq_ok_iff, uint64_eq_ok_iff, fixed_eq_ok_iff]
  refine ⟨fun h ↦ ?_, fun h ↦ ?_⟩
  · obtain ⟨n, _, rfl, ⟨o, hlen⟩, _, rfl, h⟩ := h
    dsimp only at h ⊢
    cases hread : o.toString? with
    | none =>
      rw [hread] at h
      exact absurd h fail_ne_ok
    | some t =>
      rw [hread] at h
      obtain ⟨rfl, rfl⟩ := pure_eq_ok_iff.mp h
      rw [Octets.toString?_eq_some_iff] at hread
      subst hread
      rw [← Octets.length_ofString, Writer.string, Writer.length, hlen, UInt64.ofNat_toNat,
        List.append_assoc]
      exact ⟨n.toNat_lt, rfl⟩
  · obtain ⟨hlt, rfl⟩ := h
    rw [← Octets.length_ofString] at hlt
    have hn : (UInt64.ofNat (Octets.ofString text).length).toNat = (Octets.ofString text).length :=
      UInt64.toNat_ofNat_of_lt' hlt
    refine ⟨_, _, List.append_assoc _ _ _, ⟨Octets.ofString text, hn.symm⟩, rest, rfl, ?_⟩
    dsimp only
    rw [Octets.toString?_eq_some_iff.mpr rfl]
    exact pure_eq_ok_iff.mpr ⟨rfl, rfl⟩

/-- A text that may be missing is read from the text that is written for it, and is never empty. -/
theorem optionalString_eq_ok_iff {text : Option String} :
    optionalString s = (.ok text, rest) ↔
      text ≠ some "" ∧ (text.getD "").utf8ByteSize < 2 ^ 64 ∧
        s = Writer.optionalString text ++ rest := by
  simp only [optionalString, map_eq_ok_iff, string_eq_ok_iff]
  refine ⟨fun h ↦ ?_, fun h ↦ ?_⟩
  · obtain ⟨t, ⟨hlt, rfl⟩, rfl⟩ := h
    split
    · next h =>
      rw [h]
      exact ⟨nofun, by decide, rfl⟩
    · next h => exact ⟨fun heq ↦ h (Option.some.inj heq), hlt, rfl⟩
  · obtain ⟨hne, hlt, rfl⟩ := h
    refine ⟨text.getD "", ⟨hlt, rfl⟩, ?_⟩
    cases text with
    | none => rfl
    | some t => exact if_neg fun h ↦ hne (congrArg some h)

/-- **A time is read exactly from its whole seconds**, so what is read is always a whole second. -/
theorem time_eq_ok_iff {t : Time} :
    time s = (.ok t, rest) ↔ t.nanos = 0 ∧ s = Writer.time t ++ rest := by
  simp only [time, bind_eq_ok_iff, int64_eq_ok_iff]
  refine ⟨fun h ↦ ?_, fun h ↦ ?_⟩
  · obtain ⟨seconds, _, rfl, h⟩ := h
    cases hread : Time.ofSeconds? seconds.toInt with
    | none =>
      rw [hread] at h
      exact absurd h fail_ne_ok
    | some t' =>
      rw [hread] at h
      obtain ⟨rfl, rfl⟩ := pure_eq_ok_iff.mp h
      obtain ⟨hseconds, hnanos⟩ := Time.ofSeconds?_eq_some_iff.mp hread
      rw [Writer.time, hseconds, Int64.ofInt_toInt]
      exact ⟨hnanos, rfl⟩
  · obtain ⟨hnanos, rfl⟩ := h
    refine ⟨Int64.ofInt t.seconds, rest, rfl, ?_⟩
    have hseconds : (Int64.ofInt t.seconds).toInt = t.seconds := by
      have hfirst := t.first_le
      have hlast := t.le_last
      exact Int64.toInt_ofInt_of_le (by omega) (by omega)
    rw [hseconds, Time.ofSeconds?_eq_some_iff.mpr ⟨rfl, hnanos⟩]
    exact pure_eq_ok_iff.mpr ⟨rfl, rfl⟩

/-- **Items are read one after the other** exactly from what is written for each, if a single item
is read exactly from what is written for it. -/
theorem items_eq_ok_iff {item : Reader α} {good : α → Prop} {write : α → Octets}
    (hitem : ∀ {s rest : Octets} {a : α}, item s = (.ok a, rest) ↔ good a ∧ s = write a ++ rest)
    {n : Nat} {as : List α} :
    items item n s = (.ok as, rest) ↔
      as.length = n ∧ (∀ a ∈ as, good a) ∧ s = as.flatMap write ++ rest := by
  induction n generalizing s rest as with
  | zero =>
    rw [items, pure_eq_ok_iff, List.length_eq_zero_iff]
    refine ⟨fun h ↦ ?_, fun h ↦ ?_⟩
    · obtain ⟨rfl, rfl⟩ := h
      exact ⟨rfl, by simp, rfl⟩
    · obtain ⟨rfl, -, rfl⟩ := h
      exact ⟨rfl, rfl⟩
  | succ n ih =>
    simp only [items, bind_eq_ok_iff, pure_eq_ok_iff, hitem, ih]
    refine ⟨fun h ↦ ?_, fun h ↦ ?_⟩
    · obtain ⟨a, _, ⟨ha, rfl⟩, as', _, ⟨rfl, has, rfl⟩, rfl, rfl⟩ := h
      rw [List.flatMap_cons, List.append_assoc, List.forall_mem_cons]
      exact ⟨rfl, ⟨ha, has⟩, rfl⟩
    · obtain ⟨hlen, hgood, rfl⟩ := h
      obtain ⟨a, as, rfl⟩ := List.exists_cons_of_length_eq_add_one hlen
      rw [List.forall_mem_cons] at hgood
      rw [List.flatMap_cons, List.append_assoc]
      exact ⟨a, _, ⟨hgood.1, rfl⟩, as, rest, ⟨Nat.succ.inj hlen, hgood.2, rfl⟩, rfl, rfl⟩

theorem finish_eq_ok_iff {u : Unit} : finish s = (.ok u, rest) ↔ s = [] ∧ rest = [] := by
  rw [finish]
  split
  · next h => simp [h, eq_comm]
  · next h => simp [h]

end Reader

end Transfer

end Rpki
