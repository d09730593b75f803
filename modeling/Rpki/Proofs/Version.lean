import Rpki.Manifest.Content
import Rpki.Roa.Content
import Rpki.Proofs.Der.Content
import Rpki.Proofs.SignedObject

/-!
# Versions

Content with one element more than it needs starts with a version, and is refused for it.  The
error names the version if there is one to be named, and otherwise says what is wrong with the
element.  In both cases it is `versionError` of that one element: what stands behind it is never
looked at, and it makes no difference which kind of content it is
(`explicit_version_decides`).

There are many ways for an element not to be a version, and all of them come out as faults in the
version.  `versionError_eq_unsupportedVersion_iff` says which elements are one.
-/

set_option autoImplicit false

namespace Rpki

open Der

/-! ## Numbers of 64 bits -/

namespace Der.Integer

/-- The number is a signed number of 64 bits. -/
def FitsSigned64 (i : Integer) : Prop := -2 ^ 63 ≤ i.value ∧ i.value < 2 ^ 63

theorem toSigned64?_eq_some_iff {i : Integer} {v : Int} :
    i.toSigned64? = some v ↔ i.FitsSigned64 ∧ i.value = v := by
  have hmin : Int64.minValue.toInt = -2 ^ 63 := by decide
  have hmax : Int64.maxValue.toInt = 2 ^ 63 - 1 := by decide
  simp only [toSigned64?, hmin, hmax, Option.ite_none_right_eq_some, Option.some.injEq,
    FitsSigned64, Int.le_sub_one_iff]

theorem toSigned64?_eq_none_iff {i : Integer} : i.toSigned64? = none ↔ ¬ i.FitsSigned64 := by
  rw [← not_iff_not, not_not, ← ne_eq, Option.ne_none_iff_exists']
  simp only [toSigned64?_eq_some_iff, exists_and_left, exists_eq', and_true]

end Der.Integer

/-! ## Elements -/

/-- The version with a number: a constructed value with the tag 0 that holds the INTEGER and nothing
else. -/
def Der.Element.ofVersion (i : Integer) : Element :=
  ⟨.context0, true, (⟨.integer, false, i.octets⟩ : Element).octets⟩

/-- Reads the version that the first element of some content is. -/
def readVersion (first : Element) : Except ParseError Integer := do
  let inner : Sequence ← inField .version (first.contentAs 0 .explicit0 Element.readAll?)
  let _ ← inField .version (inner.checkCount [1])
  inField .version (inner.integer 0)

/-- A version is read exactly from the element of the INTEGER.  That the INTEGER in it can be read
is no further condition: the element can be, so it is short enough. -/
theorem readVersion_eq_ok_iff {first : Element} (h : first.IsRegular) {i : Integer} :
    readVersion first = .ok i ↔ first = .ofVersion i := by
  simp only [readVersion, bind_eq_ok_iff, inField_eq_ok_iff, Element.contentAs_eq_ok_iff,
    Element.readAll?_eq_some_iff, Sequence.checkCount_eq_ok_iff, Sequence.integer,
    Sequence.contentAt_eq_ok_iff, Integer.read?_eq_some_iff]
  constructor
  · rintro ⟨inner, ⟨_, rfl, -, rfl⟩, _, ⟨hlength, -⟩, _, hget, rfl⟩
    obtain ⟨e, rfl⟩ := List.length_eq_one_iff.mp (List.mem_singleton.mp hlength)
    obtain rfl := Option.some.inj hget
    rw [List.flatMap_singleton]
    rfl
  · rintro rfl
    have hlt : i.octets.length < 2 ^ 32 :=
      Nat.lt_of_le_of_lt (Element.length_content_le ⟨.integer, false, i.octets⟩) h.lt
    have hinner := Element.isRegular_primitive .integer hlt
    refine ⟨[⟨.integer, false, i.octets⟩], ⟨_, rfl, fun e he ↦ ?_, ?_⟩, 1, ⟨by simp, rfl⟩, _, rfl,
      rfl⟩
    · rwa [List.mem_singleton.mp he]
    · rw [List.flatMap_singleton]

/-- What is wrong with an element that is no version is a fault in the version, and it is not that
of a number out of range. -/
theorem failsOnly_readVersion {P : ParseError → Prop}
    (hfield : ∀ fault : Fault, fault.IsInside →
      (∀ position kind value, fault ≠ .badValue position kind value) →
        P (.structural ⟨some .version, fault⟩)) (first : Element) :
    FailsOnly P (readVersion first) := by
  have hof {position : Nat} {kind : Kind} (fault : Fault) (h : fault.IsOf position kind) :
      P (.structural ⟨some .version, fault⟩) := by
    refine hfield fault h.isInside fun _ _ _ heq ↦ ?_
    rw [heq] at h
    exact nomatch h
  rw [readVersion]
  refine failsOnly_bind (failsOnly_inField_of (Q := (·.IsOf 0 .explicit0))
    (first.faults_contentAs 0 .explicit0 _) hof) fun (inner : Sequence) ↦ ?_
  refine failsOnly_bind_of_ok ?_ fun count hcount ↦ ?_
  · refine failsOnly_inField_of (Q := (· = .elementCount [1] inner.length))
      (inner.faults_checkCount [1]) ?_
    rintro _ rfl
    exact hfield _ (Fault.isInside_elementCount _ _) fun _ _ _ heq ↦ nomatch heq
  · have hone := Sequence.length_of_inField_checkCount hcount
    exact failsOnly_inField_of (Q := (·.IsOf 0 .integer))
      (Sequence.faults_contentAt (by omega) .integer _) hof

/-! ## Errors -/

/-- The error for content of which this is the first element, if it is one too many. -/
def versionError (first : Element) : ParseError :=
  match readVersion first with
  | .error e => e
  | .ok i =>
    match i.toSigned64? with
    | some v => .semantic (.unsupportedVersion v)
    | none => .structural ⟨some .version, .badValue 0 .integer .versionOutOfRange⟩

theorem explicitVersion_cons (first : Element) (rest : Sequence) :
    explicitVersion (first :: rest) = versionError first := by
  have hexplicit : Sequence.explicit0 (first :: rest) 0 =
      first.contentAs 0 .explicit0 Element.readAll? := rfl
  simp only [explicitVersion, hexplicit, versionError, readVersion, bind, Except.bind]
  cases inField .version (first.contentAs 0 .explicit0 Element.readAll?) with
  | error e => rfl
  | ok inner =>
    dsimp only
    cases inField .version (Sequence.checkCount inner [1]) with
    | error e => rfl
    | ok count =>
      dsimp only
      cases inField .version (Sequence.integer inner 0) with
      | error e => rfl
      | ok i => cases hnumber : i.toSigned64? <;> simp only [hnumber] <;> rfl

theorem versionError_of {P : ParseError → Prop}
    (hnumber : ∀ v, P (.semantic (.unsupportedVersion v)))
    (hfield : ∀ fault : Fault, fault.IsInside → P (.structural ⟨some .version, fault⟩))
    (first : Element) : P (versionError first) := by
  rw [versionError]
  cases hread : readVersion first with
  | error e =>
    exact failsOnly_readVersion (fun fault hinside _ ↦ hfield fault hinside) first e hread
  | ok i =>
    dsimp only
    cases i.toSigned64? with
    | some v => exact hnumber v
    | none => exact hfield _ (Fault.isInside_badValue 0 .integer _)

/-- Content that starts with a version is refused for the version, whatever it says. -/
theorem explicitVersion_of {P : ParseError → Prop}
    (hnumber : ∀ v, P (.semantic (.unsupportedVersion v)))
    (hfield : ∀ fault, P (.structural ⟨some .version, fault⟩)) (s : Sequence) :
    P (explicitVersion s) := by
  cases s with
  | nil => exact hfield (.missingElement 0)
  | cons first rest =>
    rw [explicitVersion_cons]
    exact versionError_of hnumber (fun fault _ ↦ hfield fault) first

/-- The error of an element is that of the number in it, or a fault in the version. -/
theorem versionError_cases {first : Element} (h : first.IsRegular) :
    (∃ i, first = .ofVersion i ∧ i.FitsSigned64 ∧
        versionError first = .semantic (.unsupportedVersion i.value)) ∨
      (∃ i, first = .ofVersion i ∧ ¬ i.FitsSigned64 ∧ versionError first =
        .structural ⟨some .version, .badValue 0 .integer .versionOutOfRange⟩) ∨
      (∀ i, first ≠ .ofVersion i) ∧ ∃ fault : Fault, fault.IsInside ∧
        (∀ position kind value, fault ≠ .badValue position kind value) ∧
          versionError first = .structural ⟨some .version, fault⟩ := by
  cases hread : readVersion first with
  | ok i =>
    have hfirst := (readVersion_eq_ok_iff h).mp hread
    cases hnumber : i.toSigned64? with
    | some v =>
      obtain ⟨hfits, rfl⟩ := Integer.toSigned64?_eq_some_iff.mp hnumber
      exact .inl ⟨i, hfirst, hfits, by simp only [versionError, hread, hnumber]⟩
    | none =>
      have hfits := Integer.toSigned64?_eq_none_iff.mp hnumber
      exact .inr (.inl ⟨i, hfirst, hfits, by simp only [versionError, hread, hnumber]⟩)
  | error e =>
    have hno (i : Integer) : first ≠ .ofVersion i := fun hi ↦
      nomatch hread.symm.trans ((readVersion_eq_ok_iff h).mpr hi)
    obtain ⟨fault, hinside, hvalue, rfl⟩ := failsOnly_readVersion
      (P := fun e ↦ ∃ fault : Fault, fault.IsInside ∧
        (∀ position kind value, fault ≠ .badValue position kind value) ∧
          e = .structural ⟨some .version, fault⟩)
      (fun fault hinside hvalue ↦ ⟨fault, hinside, hvalue, rfl⟩) first e hread
    exact .inr (.inr ⟨hno, fault, hinside, hvalue, by simp only [versionError, hread]⟩)

/-- The first element names its number exactly if it is the version with the number. -/
theorem versionError_eq_unsupportedVersion_iff {first : Element} (h : first.IsRegular) {v : Int} :
    versionError first = .semantic (.unsupportedVersion v) ↔
      ∃ i, first = .ofVersion i ∧ i.FitsSigned64 ∧ i.value = v := by
  constructor
  · intro herror
    obtain ⟨i, hfirst, hfits, hnamed⟩ | ⟨i, -, -, hrange⟩ | ⟨-, fault, -, -, hfault⟩ :=
      versionError_cases h
    · obtain rfl := SemanticError.unsupportedVersion.inj
        (ParseError.semantic.inj (herror.symm.trans hnamed))
      exact ⟨i, hfirst, hfits, rfl⟩
    · exact nomatch herror.symm.trans hrange
    · exact nomatch herror.symm.trans hfault
  · rintro ⟨i, hfirst, hfits⟩
    have hread := (readVersion_eq_ok_iff h).mpr hfirst
    have hnumber := Integer.toSigned64?_eq_some_iff.mpr hfits
    simp only [versionError, hread, hnumber]

theorem versionError_eq_badValue_iff {first : Element} (h : first.IsRegular) :
    versionError first =
        .structural ⟨some .version, .badValue 0 .integer .versionOutOfRange⟩ ↔
      ∃ i, first = .ofVersion i ∧ ¬ i.FitsSigned64 := by
  constructor
  · intro herror
    obtain ⟨i, -, -, hnamed⟩ | ⟨i, hfirst, hfits, -⟩ | ⟨-, fault, -, hvalue, hfault⟩ :=
      versionError_cases h
    · exact nomatch herror.symm.trans hnamed
    · exact ⟨i, hfirst, hfits⟩
    · have hsame := ParseError.structural.inj (herror.symm.trans hfault)
      exact absurd (congrArg StructuralError.fault hsame).symm (hvalue _ _ _)
  · rintro ⟨i, hfirst, hfits⟩
    have hread := (readVersion_eq_ok_iff h).mpr hfirst
    have hnumber := Integer.toSigned64?_eq_none_iff.mpr hfits
    simp only [versionError, hread, hnumber]

/-! ## Contents -/

theorem ManifestContent.decode_of_version {content : Octets} {first : Element} {rest : Sequence}
    (h : Sequence.decode content = .ok (first :: rest)) (hlength : (first :: rest).length = 6) :
    decode content = .error (versionError first) := by
  have hcount : Sequence.checkCount (first :: rest) [5, 6] = .ok 6 :=
    Sequence.checkCount_eq_ok_iff.mpr ⟨by simp [hlength], hlength⟩
  rw [← explicitVersion_cons first rest, decode, Head.decode, h]
  simp only [inField, Except.mapError, bind, Except.bind, hcount, if_pos]

theorem RoaContent.decode_of_version {content : Octets} {first : Element} {rest : Sequence}
    (h : Sequence.decode content = .ok (first :: rest)) (hlength : (first :: rest).length = 3) :
    decode content = .error (versionError first) := by
  have hcount : Sequence.checkCount (first :: rest) [2, 3] = .ok 3 :=
    Sequence.checkCount_eq_ok_iff.mpr ⟨by simp [hlength], hlength⟩
  rw [← explicitVersion_cons first rest, decode, h]
  simp only [inField, Except.mapError, bind, Except.bind, hcount, if_pos]

/-- **An explicit version is refused, and nothing behind it matters.**  There is one error for the
first element, and any content that starts with it has that error if it is the manifest of six
elements or the ROA of three.  The error names a version exactly if the element is that version,
and otherwise it is a fault in the version: a bad value if the number has more than 64 bits. -/
theorem explicit_version_decides {content : Octets} {first : Element} {rest : Sequence}
    (h : Sequence.decode content = .ok (first :: rest)) :
    ∃ error : ParseError,
      (∀ content' rest', Sequence.decode content' = .ok (first :: rest') →
        ((first :: rest').length = 6 → ManifestContent.decode content' = .error error) ∧
          ((first :: rest').length = 3 → RoaContent.decode content' = .error error)) ∧
      (∀ v, error = .semantic (.unsupportedVersion v) ↔
        ∃ i, first = .ofVersion i ∧ i.FitsSigned64 ∧ i.value = v) ∧
      ((∀ i, first = .ofVersion i → ¬ i.FitsSigned64) →
        ∃ fault, error = .structural ⟨some .version, fault⟩) ∧
      (error = .structural ⟨some .version, .badValue 0 .integer .versionOutOfRange⟩ ↔
        ∃ i, first = .ofVersion i ∧ ¬ i.FitsSigned64) := by
  have hfirst : first.IsRegular := (Sequence.decode_eq_ok_iff.mp h).1 first List.mem_cons_self
  refine ⟨versionError first, fun content' rest' h' ↦ ⟨?_, ?_⟩, fun v ↦ ?_, fun hno ↦ ?_, ?_⟩
  · exact ManifestContent.decode_of_version h'
  · exact RoaContent.decode_of_version h'
  · exact versionError_eq_unsupportedVersion_iff hfirst
  · obtain ⟨i, hi, hfits, -⟩ | ⟨i, -, -, hrange⟩ | ⟨-, fault, -, -, hfault⟩ :=
      versionError_cases hfirst
    · exact absurd hfits (hno i hi)
    · exact ⟨_, hrange⟩
    · exact ⟨fault, hfault⟩
  · exact versionError_eq_badValue_iff hfirst

/-- A manifest and a ROA that are not filled in start with version 7. -/
theorem explicit_version_decides_seven :
    let manifest : Octets := [0x30, 0x0F, 0xA0, 0x03, 0x02, 0x01, 0x07,
      0x05, 0x00, 0x05, 0x00, 0x05, 0x00, 0x05, 0x00, 0x05, 0x00]
    let roa : Octets := [0x30, 0x09, 0xA0, 0x03, 0x02, 0x01, 0x07, 0x05, 0x00, 0x05, 0x00]
    let error : ParseError := .semantic (.unsupportedVersion 7)
    (∃ first rest, Sequence.decode manifest = .ok (first :: rest)) ∧
      ManifestContent.decode manifest = .error error ∧ RoaContent.decode roa = .error error := by
  intro manifest roa error
  let empty : Element := ⟨⟨0x05, []⟩, false, []⟩
  let i : Integer := ⟨[0x07], rfl⟩
  have hmanifest : Sequence.decode manifest =
      .ok [.ofVersion i, empty, empty, empty, empty, empty] := by
    decide +kernel +zetaReduce
  have hroa : Sequence.decode roa = .ok [.ofVersion i, empty, empty] := by
    decide +kernel +zetaReduce
  obtain ⟨e, hcontents, hnames, -⟩ := explicit_version_decides hmanifest
  obtain rfl := (hnames 7).mpr ⟨i, rfl, ⟨by decide, by decide⟩, rfl⟩
  exact ⟨⟨_, _, hmanifest⟩, (hcontents _ _ hmanifest).1 rfl, (hcontents _ _ hroa).2 rfl⟩

end Rpki
