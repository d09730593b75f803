import Rpki.IpAddress
import Rpki.Proofs.Octets
import Rpki.Proofs.Text.Split
import Rpki.Proofs.Traversal

/-!
# Addresses are read back

The text of an IPv6 address is not simply its groups: a run of zeros may be left out, and an address
that stands for an IPv4 address ends in the text of that.  Still no two addresses have the same
text, since each is read back from its own, `IpAddress.ofText?_text`.

* `readDotted?_dottedText`: four numbers with dots.
* `readGroups?_groupsText`: any number of groups with colons, none included.
* `take_append_longestZeroRun`: what is left out is a run of zeros, so that putting as many zeros
  in its place as are missing gives the groups again.
-/

set_option autoImplicit false

namespace Rpki

namespace IpAddress

/-! ## Digits -/

/-- A number is written in digits. -/
theorem exists_digitChar_of_mem_toDigits {base n : Nat} {c : Char} (hbase : 1 < base)
    (h : c ∈ Nat.toDigits base n) : ∃ d < base, c = d.digitChar := by
  induction n using Nat.strongRecOn with
  | ind n ih =>
    rw [Nat.toDigits_eq_if hbase] at h
    split at h
    · next hlt => exact ⟨n, hlt, List.mem_singleton.mp h⟩
    · next hge =>
      rcases List.mem_append.mp h with h | h
      · exact ih (n / base) (Nat.div_lt_self (by omega) hbase) h
      · exact ⟨n % base, Nat.mod_lt _ (by omega), List.mem_singleton.mp h⟩

/-- A colon is not a digit, and neither is a dot. -/
theorem notMem_toDigits {base n : Nat} {c : Char} (hbase : 1 < base)
    (hc : ∀ d : Nat, d.digitChar ≠ c) : c ∉ Nat.toDigits base n := by
  intro hmem
  obtain ⟨d, -, rfl⟩ := exists_digitChar_of_mem_toDigits hbase hmem
  exact hc d rfl

theorem digitValue?_digitChar : ∀ d < 16, Hex.digitValue? d.digitChar = some d := by
  decide

/-- The values of the digits of a number make the number again. -/
theorem exists_mapM_toDigits (n : Nat) :
    ∃ ds, (Nat.toDigits 16 n).mapM Hex.digitValue? = some ds ∧
      ds.foldl (fun n d ↦ 16 * n + d) 0 = n := by
  induction n using Nat.strongRecOn with
  | ind n ih =>
    rw [Nat.toDigits_eq_if (by decide)]
    split
    · next hlt =>
      refine ⟨[n], ?_, by simp⟩
      simp [digitValue?_digitChar n hlt]
    · next hge =>
      obtain ⟨ds, hds, hvalue⟩ := ih (n / 16) (by omega)
      refine ⟨ds ++ [n % 16], ?_, ?_⟩
      · simp [hds, digitValue?_digitChar (n % 16) (by omega)]
      · rw [List.foldl_append, hvalue, List.foldl_cons, List.foldl_nil]
        omega

/-! ## Four numbers with dots -/

theorem toList_dottedText (o : Octets) :
    (dottedText o).toList = ['.'].intercalate (o.map fun b ↦ Nat.toDigits 10 b.toNat) := by
  have hdigits : (fun b : UInt8 ↦ (toString b).toList) = fun b ↦ Nat.toDigits 10 b.toNat :=
    funext fun b ↦ Nat.toList_repr
  rw [dottedText, String.toList_intercalate, List.map_map, ← hdigits]
  rfl

/-- An octet is read back from its digits, which have no zeros in front. -/
theorem decimalOctet?_toDigits (b : UInt8) : decimalOctet? (Nat.toDigits 10 b.toNat) = some b :=
  forall_octet (p := fun b ↦ decimalOctet? (Nat.toDigits 10 b.toNat) = some b)
    (by decide +kernel) b

theorem readDotted?_dottedText (o : FixedOctets 4) :
    readDotted? (dottedText o.val).toList = some o := by
  have hne : o.val.map (fun b ↦ Nat.toDigits 10 b.toNat) ≠ [] := by
    intro hnil
    have hlength := o.property
    rw [List.map_eq_nil_iff.mp hnil] at hlength
    exact nomatch hlength
  have hparts : ∀ p ∈ o.val.map (fun b ↦ Nat.toDigits 10 b.toNat), '.' ∉ p := by
    intro p hp
    obtain ⟨b, -, rfl⟩ := List.mem_map.mp hp
    exact notMem_toDigits (by decide) (by simp)
  have hread : (o.val.map fun b ↦ Nat.toDigits 10 b.toNat).mapM decimalOctet? = some o.val :=
    mapM_map_eq_some fun b _ ↦ decimalOctet?_toDigits b
  rw [readDotted?, toList_dottedText, Text.split_intercalate hne hparts, hread]
  exact dif_pos o.property

/-- There are only digits between the dots. -/
theorem readDotted?_eq_none {cs : List Char} (h : ':' ∈ cs) : readDotted? cs = none := by
  obtain ⟨part, hpart, hmem⟩ := Text.exists_mem_split h (show ':' ≠ '.' by decide)
  have hnone : decimalOctet? part = none := by
    rw [decimalOctet?, if_neg]
    rintro ⟨-, -, hdigits, -⟩
    exact absurd (List.all_eq_true.mp hdigits ':' hmem) (by decide)
  rw [readDotted?, mapM_eq_none_of_mem hpart hnone]
  rfl

/-! ## Groups with colons -/

/-- The octets of groups. -/
def ungrouped (gs : List Nat) : Octets := gs.flatMap (Octets.ofBigEndian 2)

theorem length_ungrouped (gs : List Nat) : (ungrouped gs).length = 2 * gs.length := by
  induction gs with
  | nil => rfl
  | cons g gs ih =>
    rw [ungrouped, List.flatMap_cons, List.length_append, Octets.length_ofBigEndian,
      List.length_cons, ← ungrouped, ih]
    omega

theorem ungrouped_append (gs hs : List Nat) :
    ungrouped (gs ++ hs) = ungrouped gs ++ ungrouped hs :=
  List.flatMap_append

/-- Groups of zeros are zeros. -/
theorem ungrouped_replicate (k : Nat) :
    ungrouped (List.replicate k 0) = List.replicate (2 * k) 0 := by
  induction k with
  | zero => rfl
  | succ k ih =>
    rw [List.replicate_succ, ungrouped, List.flatMap_cons, ← ungrouped, ih, Nat.mul_succ,
      Nat.add_comm, List.replicate_add]
    rfl

/-- An even number of octets is that of its groups, each of which has two octets. -/
theorem ungrouped_groups {o : Octets} (h : o.length % 2 = 0) :
    ungrouped (groups o) = o ∧ ∀ g ∈ groups o, g < 65536 := by
  induction o using groups.induct with
  | case1 a b rest ih =>
    obtain ⟨hrest, hlt⟩ := ih (by rw [List.length_cons, List.length_cons] at h; omega)
    have ha := a.toNat_lt
    have hb := b.toNat_lt
    have hpair : Octets.ofBigEndian 2 (256 * a.toNat + b.toNat) = [a, b] := by
      have hback := Octets.ofBigEndian_bigEndian [a, b]
      simpa [Octets.bigEndian, Nat.mul_comm] using hback
    refine ⟨?_, ?_⟩
    · rw [groups, ungrouped, List.flatMap_cons, hpair, ← ungrouped, hrest]
      rfl
    · rw [groups, List.forall_mem_cons]
      exact ⟨by omega, hlt⟩
  | case2 o ho =>
    obtain _ | ⟨a, _ | ⟨b, rest⟩⟩ := o
    · exact ⟨rfl, by simp [groups]⟩
    · exact absurd h (by simp)
    · exact absurd rfl (ho a b rest)

theorem toList_groupsText (gs : List Nat) :
    (groupsText gs).toList = [':'].intercalate (gs.map (Nat.toDigits 16)) := by
  rw [groupsText, String.toList_intercalate, List.map_map]
  simp only [Function.comp_def, String.toList_ofList]
  rfl

theorem readGroup?_toDigits {g : Nat} (h : g < 65536) :
    readGroup? (Nat.toDigits 16 g) = some (Octets.ofBigEndian 2 g) := by
  obtain ⟨ds, hds, hvalue⟩ := exists_mapM_toDigits g
  have hlength : (Nat.toDigits 16 g).length ≤ 4 :=
    (Nat.length_toDigits_le_iff (by decide) (by decide)).mpr h
  rw [readGroup?, if_pos ⟨Nat.toDigits_ne_nil, hlength⟩, hds, Option.bind_eq_bind, Option.bind_some,
    hvalue]

theorem readParts?_map_toDigits {gs : List Nat} (h : ∀ g ∈ gs, g < 65536) :
    readParts? (gs.map (Nat.toDigits 16)) = some (ungrouped gs) := by
  induction gs with
  | nil => rfl
  | cons g gs ih =>
    rw [List.forall_mem_cons] at h
    cases gs with
    | nil =>
      rw [List.map_singleton, readParts?, readGroup?_toDigits h.1]
      simp [ungrouped]
    | cons g' gs =>
      have hrest := ih h.2
      rw [List.map_cons] at hrest
      rw [List.map_cons, List.map_cons, readParts?, readGroup?_toDigits h.1, hrest]
      · rfl
      · exact List.cons_ne_nil _ _

/-- The parts between the colons are not empty and have no colons in them. -/
theorem isPart_of_mem {gs : List Nat} {p : List Char} (h : p ∈ gs.map (Nat.toDigits 16)) :
    p ≠ [] ∧ ':' ∉ p := by
  obtain ⟨g, -, rfl⟩ := List.mem_map.mp h
  exact ⟨Nat.toDigits_ne_nil, notMem_toDigits (by decide) (by simp)⟩

/-- **Groups are read back**, however many there are. -/
theorem readGroups?_groupsText {gs : List Nat} (h : ∀ g ∈ gs, g < 65536) :
    readGroups? (groupsText gs).toList = some (ungrouped gs) := by
  rw [toList_groupsText, readGroups?]
  cases gs with
  | nil => rfl
  | cons g gs =>
    have hne : [':'].intercalate ((g :: gs).map (Nat.toDigits 16)) ≠ [] := by
      cases gs <;> simp
    rw [if_neg hne, Text.split_intercalate (by simp) fun p hp ↦ (isPart_of_mem hp).2,
      readParts?_map_toDigits h]

/-- Only an IPv4 address has dots. -/
theorem dot_notMem_groupsText (gs : List Nat) : '.' ∉ (groupsText gs).toList := by
  rw [toList_groupsText]
  refine Text.notMem_intercalate (by decide) fun p hp ↦ ?_
  obtain ⟨g, -, rfl⟩ := List.mem_map.mp hp
  exact notMem_toDigits (by decide) (by simp)

/-! ## Runs of zeros -/

/-- **What is left out is a run of zeros** between two parts of the groups. -/
theorem take_append_longestZeroRun (gs : List Nat) :
    gs.take (longestZeroRun gs).1 ++ (List.replicate (longestZeroRun gs).2 0 ++
      gs.drop ((longestZeroRun gs).1 + (longestZeroRun gs).2)) = gs := by
  induction gs with
  | nil => rfl
  | cons g gs ih =>
    rw [longestZeroRun]
    dsimp only
    split
    · -- The run starts here.
      have hsplit := List.takeWhile_append_dropWhile (p := (· == 0)) (l := g :: gs)
      have hzeros : (g :: gs).takeWhile (· == 0) =
          List.replicate ((g :: gs).takeWhile (· == 0)).length 0 :=
        List.eq_replicate_of_mem fun a ha ↦
          beq_iff_eq.mp (List.all_eq_true.mp List.all_takeWhile a ha)
      have hrest : ((g :: gs).takeWhile (· == 0) ++ (g :: gs).dropWhile (· == 0)).drop
          ((g :: gs).takeWhile (· == 0)).length = (g :: gs).dropWhile (· == 0) :=
        List.drop_left' rfl
      rw [hsplit] at hrest
      rw [Nat.zero_add, List.take_zero, List.nil_append, ← hzeros, hrest, hsplit]
    · rw [Nat.add_right_comm, List.take_succ_cons, List.drop_succ_cons, List.cons_append, ih]

/-! ## IPv6 addresses -/

/-- There are no two colons in a row in groups, so they are looked for behind them. -/
theorem splitAtDouble?_groupsText_append (gs : List Nat) (cs : List Char) :
    Text.splitAtDouble? ':' ((groupsText gs).toList ++ cs) =
      (Text.splitAtDouble? ':' cs).map fun (front, back) ↦
        ((groupsText gs).toList ++ front, back) := by
  rw [toList_groupsText]
  exact Text.splitAtDouble?_intercalate_append (fun p hp ↦ isPart_of_mem hp) cs

/-- All eight groups are read back. -/
theorem readColons?_groupsText {gs : List Nat} (h : ∀ g ∈ gs, g < 65536) :
    readColons? (groupsText gs).toList = FixedOctets.ofOctets? (ungrouped gs) := by
  have hnone : Text.splitAtDouble? ':' (groupsText gs).toList = none := by
    have hall := splitAtDouble?_groupsText_append gs []
    rwa [List.append_nil] at hall
  rw [readColons?, hnone]
  dsimp only
  rw [readGroups?_groupsText h]
  rfl

/-- The zeros between the groups in front of two colons and the groups behind them are as many as
are missing. -/
theorem readColons?_of_double {front back : List Nat} {k : Nat} (hk : 1 ≤ k)
    (hlength : front.length + (k + back.length) = 8) (hfront : ∀ g ∈ front, g < 65536)
    (hback : ∀ g ∈ back, g < 65536) :
    readColons? (groupsText front ++ "::" ++ groupsText back).toList =
      FixedOctets.ofOctets? (ungrouped (front ++ (List.replicate k 0 ++ back))) := by
  have hdouble : Text.splitAtDouble? ':' (groupsText front ++ "::" ++ groupsText back).toList =
      some ((groupsText front).toList, (groupsText back).toList) := by
    have hhere (cs : List Char) : Text.splitAtDouble? ':' ("::".toList ++ cs) = some ([], cs) := rfl
    rw [String.toList_append, String.toList_append, List.append_assoc,
      splitAtDouble?_groupsText_append, hhere, Option.map_some]
    dsimp only
    rw [List.append_nil]
  have hzeros : 16 - ((ungrouped front).length + (ungrouped back).length) = 2 * k := by
    rw [length_ungrouped, length_ungrouped]
    omega
  have hroom : (ungrouped front).length + (ungrouped back).length ≤ 14 := by
    rw [length_ungrouped, length_ungrouped]
    omega
  rw [readColons?, hdouble]
  dsimp only
  rw [readPlainGroups?, if_neg (dot_notMem_groupsText front), readGroups?_groupsText hfront,
    readGroups?_groupsText hback]
  simp only [Option.bind_eq_bind, Option.bind_some]
  rw [if_pos hroom, hzeros, ← ungrouped_replicate, List.append_assoc, ← ungrouped_append,
    ← ungrouped_append]

/-- **Eight groups are read back**, with the longest run of zeros left out or not. -/
theorem readColons?_shortenedText {gs : List Nat} (hlength : gs.length = 8)
    (h : ∀ g ∈ gs, g < 65536) :
    readColons? (shortenedText gs).toList = FixedOctets.ofOctets? (ungrouped gs) := by
  have hsplit := take_append_longestZeroRun gs
  have hcount := congrArg List.length hsplit
  rw [List.length_append, List.length_append, List.length_replicate, hlength] at hcount
  rw [shortenedText]
  dsimp only
  split
  · next htwo =>
    rw [readColons?_of_double (Nat.le_of_succ_le htwo) hcount
      (fun g hg ↦ h g (List.mem_of_mem_take hg)) (fun g hg ↦ h g (List.mem_of_mem_drop hg)), hsplit]
  · exact readColons?_groupsText h

/-- There are colons in the text of eight groups, whatever is left out. -/
theorem colon_mem_shortenedText {gs : List Nat} (hlength : gs.length = 8) :
    ':' ∈ (shortenedText gs).toList := by
  rw [shortenedText]
  dsimp only
  split
  · simp
  · rw [toList_groupsText]
    exact Text.separator_mem_intercalate (by rw [List.length_map]; omega)

/-- A group has no dots. -/
theorem readGroup?_eq_none {cs : List Char} (h : '.' ∈ cs) : readGroup? cs = none := by
  rw [readGroup?]
  split
  · rw [mapM_eq_none_of_mem h (by decide)]
    rfl
  · rfl

/-- **An address that stands for an IPv4 address is read back** from the text that ends in that of
the other. -/
theorem readColons?_mapped (o : FixedOctets 4) :
    readColons? ("::ffff:" ++ dottedText o.val).toList =
      FixedOctets.ofOctets? (mappedPrefix ++ o.val) := by
  have hdouble : Text.splitAtDouble? ':' ("::ffff:" ++ dottedText o.val).toList =
      some ([], "ffff".toList ++ ':' :: (dottedText o.val).toList) := by
    rw [String.toList_append]
    rfl
  have hcolon : ':' ∉ (dottedText o.val).toList := by
    rw [toList_dottedText]
    refine Text.notMem_intercalate (by decide) fun p hp ↦ ?_
    obtain ⟨b, -, rfl⟩ := List.mem_map.mp hp
    exact notMem_toDigits (by decide) (by simp)
  have hdot : '.' ∈ (dottedText o.val).toList := by
    rw [toList_dottedText]
    refine Text.separator_mem_intercalate ?_
    rw [List.length_map, o.property]
    decide
  have hsplit : Text.split ':' ("ffff".toList ++ ':' :: (dottedText o.val).toList) =
      ["ffff".toList, (dottedText o.val).toList] := by
    rw [Text.split_append_cons, Text.split_of_notMem hcolon]
    rfl
  have hlast : readParts? [(dottedText o.val).toList] = some o.val := by
    rw [readParts?, readGroup?_eq_none hdot, readDotted?_dottedText]
    rfl
  have hfirst : readGroup? "ffff".toList = some [0xFF, 0xFF] := by decide
  have hback : readGroups? ("ffff".toList ++ ':' :: (dottedText o.val).toList) =
      some ([0xFF, 0xFF] ++ o.val) := by
    rw [readGroups?, if_neg (by simp), hsplit, readParts?, hfirst, hlast]
    · rfl
    · exact List.cons_ne_nil _ _
  have hlength : ([0xFF, 0xFF] ++ o.val : Octets).length = 6 := by
    rw [List.length_append, o.property]
    rfl
  rw [readColons?, hdouble]
  dsimp only
  rw [hback]
  have hfront : readPlainGroups? [] = some [] := rfl
  simp only [hfront, Option.bind_eq_bind, Option.bind_some, hlength]
  rfl

/-! ## Addresses -/

/-- **An address is read back from its text**, of either family and however it is shortened. -/
theorem ofText?_text (a : IpAddress) : ofText? a.text = some a := by
  cases a with
  | v4 o =>
    rw [ofText?, text, readDotted?_dottedText]
    rfl
  | v6 o =>
    have hofOctets : FixedOctets.ofOctets? o.val = some o := dif_pos o.property
    rw [ofText?, text]
    split
    · next hmapped =>
      have hlength : (o.val.drop 12).length = 4 := by rw [List.length_drop, o.property]
      have hcolon : ':' ∈ ("::ffff:" ++ dottedText (o.val.drop 12)).toList := by simp
      rw [readDotted?_eq_none hcolon, readColons?_mapped ⟨o.val.drop 12, hlength⟩, ← hmapped,
        List.take_append_drop, hofOctets]
      rfl
    · have heven : o.val.length % 2 = 0 := by rw [o.property]
      obtain ⟨hgroups, hlt⟩ := ungrouped_groups heven
      have hlength : (groups o.val).length = 8 := by
        have hdouble := length_ungrouped (groups o.val)
        rw [hgroups, o.property] at hdouble
        omega
      rw [readDotted?_eq_none (colon_mem_shortenedText hlength),
        readColons?_shortenedText hlength hlt, hgroups, hofOctets]
      rfl

end IpAddress

end Rpki
