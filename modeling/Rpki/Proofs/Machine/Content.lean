import Rpki.Manifest.Content
import Rpki.Proofs.Der.Value
import Rpki.Proofs.Machine.Operation
import Rpki.Proofs.Time.Generalized

/-!
# Reading the content of a manifest on a machine

Three steps of reading can be out of the domain of what a machine can do.  The octets behind a value
are counted by a difference; a number without its leading zeros is copied to the end of twenty
octets; and the parts of a time are cut out of it and become numbers digit by digit.  Each is made
safe by a check that is made before: the value is a part of the octets, the number has at most
twenty octets, and the time has fifteen octets of which fourteen are digits.

`Machine.computes_decodeManifestContent` puts them together.
-/

set_option autoImplicit false

namespace Rpki

namespace Machine

/-! ## Sequences -/

/-- Reads the elements of one SEQUENCE.  How many octets are behind the value in front is the
difference of two lengths. -/
def decodeSequence (data : Octets) : ExceptT StructuralError Option Der.Sequence :=
  match Der.Value.skip? data with
  | none => Der.fail .decoding
  | some rest => do
    let value := data.take (data.length - rest.length)
    if value.length = data.length then Der.Sequence.decode value
    else
      let trailing ← sub data.length value.length
      Der.fail (.trailingData trailing)

theorem computes_decodeSequence (data : Octets) :
    Computes (decodeSequence data) (Der.Sequence.decode data) := by
  rw [decodeSequence]
  cases hskip : Der.Value.skip? data with
  | none =>
    rw [Der.Sequence.decode, hskip]
    exact computes_lift _
  | some rest =>
    obtain ⟨value, -, rfl⟩ := Der.Value.skip?_eq_some_iff.mp hskip
    have hvalue : (value ++ rest).take ((value ++ rest).length - rest.length) = value := by
      rw [List.length_append, Nat.add_sub_cancel, List.take_left]
    simp only [hvalue]
    split
    · next heq =>
      have hrest : rest = [] := by
        rw [List.length_append] at heq
        exact List.length_eq_zero_iff.mp (by omega)
      rw [hrest, List.append_nil]
      exact computes_lift _
    · next hne =>
      have hle : value.length ≤ (value ++ rest).length := by
        rw [List.length_append]
        exact Nat.le_add_right _ _
      have hfail : Der.Sequence.decode (value ++ rest) = Der.fail (.trailingData rest.length) := by
        rw [Der.Sequence.decode, hskip]
        cases rest with
        | nil => simp at hne
        | cons b rest => rfl
      refine computes_operation (sub_eq_some hle) ?_
      rw [hfail, List.length_append, Nat.add_sub_cancel_left]
      exact computes_lift _

/-! ## Manifest numbers -/

/-- The number with the given octets.  Those behind the leading zeros are copied to the end of
twenty octets. -/
def numberOfOctets (o : Octets) : ExceptT SemanticError Option ManifestNumber := do
  let significant ← slice o (o.findIdx (· != 0)) o.length
  if 20 < significant.length then throw (.numberTooLong significant.length)
  else
    let octets ← write (zeros 20) (← sub 20 significant.length) 20 significant
    return ⟨octets⟩

/-- The number that an INTEGER is. -/
def numberOfInteger (i : Der.Integer) : ExceptT SemanticError Option ManifestNumber :=
  if i.isNegative then throw .negativeNumber else numberOfOctets i.octets

theorem computes_numberOfOctets (o : Octets) :
    Computes (numberOfOctets o) (ManifestNumber.ofOctets o) := by
  refine computes_operation (slice_significant o) ?_
  rw [ManifestNumber.ofOctets]
  by_cases hle : o.significant.length ≤ 20
  · rw [dif_pos hle, if_neg (Nat.not_lt.mpr hle)]
    exact computes_operation (sub_eq_some hle) (computes_operation (write_back hle) (computes_ok _))
  · rw [dif_neg hle, if_pos (Nat.lt_of_not_le hle)]
    exact computes_error _

theorem computes_numberOfInteger (i : Der.Integer) :
    Computes (numberOfInteger i) (ManifestNumber.ofInteger i) := by
  rw [numberOfInteger, ManifestNumber.ofInteger]
  split
  · exact computes_error _
  · exact computes_numberOfOctets _

/-! ## Times -/

/-- The number that ASCII digits denote, in 32 bits. -/
def readNumber (ds : Octets) : Option Nat :=
  ds.foldlM (fun n b ↦ do add 32 (← mul 32 n 10) (← sub b.toNat 0x30)) 0

/-- The number between two positions of the digits of a time. -/
def readPart (ds : Octets) (start stop : Nat) : Option Nat := do readNumber (← slice ds start stop)

/-- The date and time of day that fourteen digits denote. -/
def readCivil (ds : Octets) : Option CivilTime := do
  let year ← cast 31 (← readPart ds 0 4)
  let month ← readPart ds 4 6
  let day ← readPart ds 6 8
  let hour ← readPart ds 8 10
  let minute ← readPart ds 10 12
  let second ← readPart ds 12 14
  return ⟨⟨year, month, day⟩, hour, minute, second⟩

/-- The time of a date and time of day, which may be none. -/
def timeOfCivil (c : CivilTime) : Except MalformedTime Time :=
  match Time.ofCivil? c with
  | some t => .ok t
  | none => .error .format

/-- Reads the content of a GeneralizedTime. -/
def readTime (content : Octets) : ExceptT MalformedTime Option Time := do
  if content.length = 15 then
    let last ← octetAt content 14
    if last = 0x5A then
      let ds ← slice content 0 14
      if ds.all GeneralizedTime.isDigit then
        let c ← readCivil ds
        timeOfCivil c
      else throw .format
    else throw .format
  else throw .format

/-- The window between two times given as the content of GeneralizedTimes. -/
def windowOfGeneralizedTimes (thisUpdate nextUpdate : Octets) :
    ExceptT MalformedTime Option ValidityWindow := do
  let a ← readTime thisUpdate
  let b ← readTime nextUpdate
  ValidityWindow.ofTimes a b

/-- Up to nine digits do not leave 32 bits at any of them. -/
theorem readNumber_eq {ds : Octets} (h : ∀ b ∈ ds, GeneralizedTime.isDigit b = true)
    (hle : ds.length ≤ 9) : readNumber ds = some (GeneralizedTime.number ds) := by
  induction ds using List.reverseRecOn with
  | nil => rfl
  | append_singleton ds b ih =>
    have hdigit := GeneralizedTime.isDigit_iff.mp (h b (by simp))
    have hlt := GeneralizedTime.number_lt h
    have hpow : 10 ^ (ds ++ [b]).length ≤ 10 ^ 9 := Nat.pow_le_pow_right (by decide) hle
    rw [GeneralizedTime.number_append_singleton] at hlt ⊢
    rw [List.length_append] at hle
    have hfront := ih (fun b hb ↦ h b (List.mem_append_left _ hb)) (by omega)
    rw [readNumber] at hfront ⊢
    rw [List.foldlM_append, hfront]
    have hmul : mul 32 (GeneralizedTime.number ds) 10 = some (GeneralizedTime.number ds * 10) :=
      mul_eq_some (by omega)
    have hsub : sub b.toNat 0x30 = some (b.toNat - 0x30) := sub_eq_some hdigit.1
    have hadd : add 32 (GeneralizedTime.number ds * 10) (b.toNat - 0x30) =
        some (GeneralizedTime.number ds * 10 + (b.toNat - 0x30)) := add_eq_some (by omega)
    simp only [Option.bind_eq_bind, Option.bind_some, List.foldlM_cons, List.foldlM_nil, hmul, hsub,
      hadd, Option.pure_def, Option.some.injEq]
    omega

/-- Any part of a time of up to nine digits is a number. -/
theorem readPart_eq {ds : Octets} {start stop : Nat}
    (h : ∀ b ∈ ds, GeneralizedTime.isDigit b = true) (hstart : start ≤ stop)
    (hstop : stop ≤ ds.length) (hle : stop - start ≤ 9) :
    readPart ds start stop =
      some (GeneralizedTime.number ((ds.drop start).take (stop - start))) := by
  rw [readPart, slice_eq_some hstart hstop, Option.bind_eq_bind, Option.bind_some]
  refine readNumber_eq (fun b hb ↦ h b (List.mem_of_mem_drop (List.mem_of_mem_take hb))) ?_
  exact Nat.le_trans (List.length_take_le _ _) hle

/-- All parts of fourteen digits are numbers, and the year is one with a sign. -/
theorem readCivil_eq {ds : Octets} (hlength : ds.length = 14)
    (h : ∀ b ∈ ds, GeneralizedTime.isDigit b = true) :
    readCivil ds = some (GeneralizedTime.civil ds) := by
  have hpart (start stop : Nat) (hstart : start ≤ stop) (hstop : stop ≤ 14)
      (hle : stop - start ≤ 9) : readPart ds start stop =
        some (GeneralizedTime.number ((ds.drop start).take (stop - start))) :=
    readPart_eq h hstart (hlength ▸ hstop) hle
  have hyear : GeneralizedTime.number (ds.take 4) < 2 ^ 31 := by
    have hdigits : ∀ b ∈ ds.take 4, GeneralizedTime.isDigit b = true :=
      fun b hb ↦ h b (List.mem_of_mem_take hb)
    have hlt := GeneralizedTime.number_lt hdigits
    have hpow : 10 ^ (ds.take 4).length ≤ 10 ^ 4 :=
      Nat.pow_le_pow_right (by decide) (List.length_take_le _ _)
    omega
  simp only [readCivil, hpart 0 4 (by decide) (by decide) (by decide),
    hpart 4 6 (by decide) (by decide) (by decide), hpart 6 8 (by decide) (by decide) (by decide),
    hpart 8 10 (by decide) (by decide) (by decide),
    hpart 10 12 (by decide) (by decide) (by decide),
    hpart 12 14 (by decide) (by decide) (by decide), List.drop_zero, Nat.sub_zero,
    Option.bind_eq_bind, Option.bind_some, cast_eq_some hyear]
  rfl

/-- The time that the content of a GeneralizedTime is, or the error that it is none. -/
def timeOf (content : Octets) : Except MalformedTime Time :=
  match GeneralizedTime.read? content with
  | some t => .ok t
  | none => .error .format

theorem computes_readTime (content : Octets) : Computes (readTime content) (timeOf content) := by
  rw [readTime, timeOf, GeneralizedTime.read?]
  by_cases hlength : content.length = 15
  swap
  · rw [if_neg hlength, if_neg fun h ↦ hlength h.1]
    exact computes_error _
  obtain ⟨last, hlast⟩ : ∃ last, content.drop 14 = [last] :=
    List.length_eq_one_iff.mp (by rw [List.length_drop, hlength])
  have hget : octetAt content 14 = some last := by
    rw [octetAt, ← List.head?_drop, hlast]
    rfl
  rw [if_pos hlength, hlast]
  refine computes_operation hget ?_
  by_cases hletter : last = 0x5A
  swap
  · rw [if_neg hletter, if_neg fun h ↦ hletter (List.cons.inj h.2.1).1]
    exact computes_error _
  have hds : (content.take 14).length = 14 := by
    rw [List.length_take, hlength]
    rfl
  rw [if_pos hletter]
  refine computes_operation (slice_front (by omega)) ?_
  by_cases hdigits : (content.take 14).all GeneralizedTime.isDigit = true
  swap
  · rw [if_neg hdigits, if_neg fun h ↦ hdigits h.2.2]
    exact computes_error _
  rw [if_pos hdigits, if_pos ⟨hlength, congrArg (fun b ↦ [b]) hletter, hdigits⟩]
  exact computes_operation (readCivil_eq hds (List.all_eq_true.mp hdigits)) (computes_lift _)

theorem computes_windowOfGeneralizedTimes (thisUpdate nextUpdate : Octets) :
    Computes (windowOfGeneralizedTimes thisUpdate nextUpdate)
      (ValidityWindow.ofGeneralizedTimes thisUpdate nextUpdate) := by
  have hsteps : ValidityWindow.ofGeneralizedTimes thisUpdate nextUpdate = (do
      let a ← timeOf thisUpdate
      let b ← timeOf nextUpdate
      ValidityWindow.ofTimes a b) := by
    rw [ValidityWindow.ofGeneralizedTimes, timeOf, timeOf]
    cases GeneralizedTime.read? thisUpdate with
    | none => rfl
    | some a => cases GeneralizedTime.read? nextUpdate <;> rfl
  rw [hsteps]
  exact computes_bind (computes_readTime _) fun _ _ ↦
    computes_bind (computes_readTime _) fun _ _ ↦ computes_lift _

/-! ## Content -/

/-- Reads the content up to the times. -/
def decodeHead (content : Octets) : ExceptT ParseError Option ManifestContent.Head := do
  let elements ← inField .manifest (decodeSequence content)
  let count ← inField .manifest (elements.checkCount [5, 6])
  if count = 6 then throw (explicitVersion elements)
  else
    let number ← inField .manifestNumber (elements.integer 0)
    let number ← asValue (numberOfInteger number)
    let thisUpdate ← inField .thisUpdate (elements.generalizedTime 1)
    let nextUpdate ← inField .nextUpdate (elements.generalizedTime 2)
    let window ← asValue
      (ExceptT.adapt .time (windowOfGeneralizedTimes thisUpdate nextUpdate))
    return ⟨number, window, elements⟩

/-- Reads the content.  There is nothing in the file list that a machine could stop at. -/
def decodeManifestContent (content : Octets) : ExceptT ParseError Option ManifestContent := do
  let head ← decodeHead content
  let files ← head.files
  return ⟨head.number, head.window, files⟩

theorem computes_decodeHead (content : Octets) :
    Computes (decodeHead content) (ManifestContent.Head.decode content) := by
  refine computes_bind (computes_inField (computes_decodeSequence content)) fun elements _ ↦ ?_
  refine computes_bind (computes_inField (computes_lift _)) fun count _ ↦ ?_
  split
  · exact computes_error _
  · refine computes_bind (computes_inField (computes_lift _)) fun i _ ↦ ?_
    refine computes_bind (computes_asValue (computes_numberOfInteger i)) fun number _ ↦ ?_
    refine computes_bind (computes_inField (computes_lift _)) fun thisUpdate _ ↦ ?_
    refine computes_bind (computes_inField (computes_lift _)) fun nextUpdate _ ↦ ?_
    refine computes_bind (computes_asValue (computes_adapt _
      (computes_windowOfGeneralizedTimes thisUpdate nextUpdate))) fun window _ ↦ ?_
    exact computes_ok _

/-- **The content of a manifest is read without stopping.** -/
theorem computes_decodeManifestContent (content : Octets) :
    Computes (decodeManifestContent content) (ManifestContent.decode content) :=
  computes_bind (computes_decodeHead content) fun _ _ ↦
    computes_bind (computes_lift _) fun _ _ ↦ computes_ok _

end Machine

end Rpki
