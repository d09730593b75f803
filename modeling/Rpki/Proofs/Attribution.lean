import Rpki.Proofs.Manifest.Content
import Rpki.Proofs.Manifest.FileList
import Rpki.Proofs.Version

/-!
# Errors say where they are

A content decoder consists of many small steps, and each of them names the field it reads.  Nothing
makes it do so, and a step that asks for an element relies on an earlier one that has counted them.
`ParseError.IsOfContent` is what comes out if all of this is right: a value that is not acceptable,
a fault in something that is there, in some field, or octets that cannot be taken apart, which are
those of the whole content.

It is shown of the parts of a content first and then of `ManifestContent.decode` and
`RoaContent.decode`.  `structural_errors_attributed` says what it means for whoever looks at an
error.
-/

set_option autoImplicit false

namespace Rpki

open Der

/-! ## Errors of a content -/

/-- The errors of content whose outermost field is this one. -/
inductive ParseError.IsOfContent (outermost : Field) : ParseError → Prop
  /-- The octets of the content are not taken apart. -/
  | undecoded {fault : Fault} (h : fault = .decoding ∨ ∃ octets, fault = .trailingData octets) :
    IsOfContent outermost (.structural ⟨some outermost, fault⟩)
  | inside (f : Field) {fault : Fault} (h : fault.IsInside) :
    IsOfContent outermost (.structural ⟨some f, fault⟩)
  | value (error : SemanticError) : IsOfContent outermost (.semantic error)

/-- What a structural error says about where it is.  It names a field, it does not ask for an
element that is not there, and octets are left over only behind the whole content.  The element is
named unless the fault is one of the octets or of the number of elements. -/
structure StructuralError.IsAttributed (outermost : Field) (e : StructuralError) : Prop where
  field_ne_none : e.field ≠ none
  not_missing : ∀ position, e.fault ≠ .missingElement position
  field_of_trailingData : ∀ octets, e.fault = .trailingData octets → e.field = some outermost
  position?_eq_none_iff : e.fault.position? = none ↔
    e.fault = .decoding ∨ (∃ octets, e.fault = .trailingData octets) ∨
      ∃ allowed found, e.fault = .elementCount allowed found

theorem ParseError.IsOfContent.isAttributed {outermost : Field} {e : StructuralError}
    (h : IsOfContent outermost (.structural e)) : e.IsAttributed outermost := by
  cases h with
  | @undecoded fault h =>
    refine ⟨Option.some_ne_none _, fun position heq ↦ ?_, fun _ _ ↦ rfl,
      Fault.position?_eq_none_iff⟩
    obtain rfl : fault = .missingElement position := heq
    obtain h | ⟨_, h⟩ := h
    · exact nomatch h
    · exact nomatch h
  | inside f h =>
    exact ⟨Option.some_ne_none _, h.1, fun octets heq ↦ absurd heq (h.2 octets),
      Fault.position?_eq_none_iff⟩

/-- What fails only with the errors of such content. -/
abbrev FailsOfContent (outermost : Field) {α : Type} (r : Except ParseError α) : Prop :=
  FailsOnly (·.IsOfContent outermost) r

/-! ## Parts of a content -/

section

variable {outermost : Field}

theorem failsOfContent_asValue {α : Type} (r : Except SemanticError α) :
    FailsOfContent outermost (asValue r) :=
  failsOnly_asValue fun error _ ↦ .value error

theorem failsOfContent_decode (content : Octets) :
    FailsOfContent outermost (inField outermost (Sequence.decode content)) :=
  failsOnly_inField_of (Q := fun fault ↦ fault = .decoding ∨ ∃ octets, fault = .trailingData octets)
    (Sequence.faults_decode content) fun _ h ↦ .undecoded h

theorem failsOfContent_checkCount (f : Field) (s : Sequence) (allowed : List Nat) :
    FailsOfContent outermost (inField f (s.checkCount allowed)) :=
  s.failsOnly_inField_checkCount (fun _ h ↦ .inside f h) allowed

theorem failsOfContent_contentAt (f : Field) {α : Type} {s : Sequence} {position : Nat}
    (h : position < s.length) (kind : Kind) (read? : Octets → Option α) :
    FailsOfContent outermost (inField f (s.contentAt position kind read?)) :=
  Sequence.failsOnly_inField_contentAt (fun _ h ↦ .inside f h) h kind read?

theorem failsOfContent_readEach (f : Field) {α : Type} {item : Sequence → Except ParseError α}
    (hitem : ∀ s, FailsOfContent outermost (item s)) (position : Nat) (es : Sequence) :
    FailsOfContent outermost (readEach f item position es) :=
  failsOnly_readEach_of (fun _ _ h ↦ .inside f h.isInside) hitem position es

theorem isOfContent_explicitVersion {s : Sequence} (h : s ≠ []) :
    (explicitVersion s).IsOfContent outermost := by
  obtain ⟨first, rest, rfl⟩ := List.exists_cons_of_ne_nil h
  rw [explicitVersion_cons]
  exact versionError_of (fun _ ↦ .value _) (fun _ h ↦ .inside .version h) first

end

/-! ## Manifests -/

namespace ManifestContent

theorem Head.failsOfContent_decode (content : Octets) :
    FailsOfContent .manifest (Head.decode content) := by
  rw [Head.decode]
  refine failsOnly_bind (Rpki.failsOfContent_decode content) fun es ↦ ?_
  refine failsOnly_bind_of_ok (failsOfContent_checkCount _ _ _) fun count hcount ↦ ?_
  obtain ⟨hallowed, rfl⟩ := Sequence.checkCount_eq_ok_iff.mp (inField_eq_ok_iff.mp hcount)
  split
  · next hsix =>
    exact failsOnly_error (isOfContent_explicitVersion (List.ne_nil_of_length_pos (by omega)))
  · next hsix =>
    have hfive : es.length = 5 := by simpa [hsix] using hallowed
    refine failsOnly_bind (failsOfContent_contentAt _ (by omega) _ _) fun i ↦ ?_
    refine failsOnly_bind (failsOfContent_asValue _) fun number ↦ ?_
    refine failsOnly_bind (failsOfContent_contentAt _ (by omega) _ _) fun thisUpdate ↦ ?_
    refine failsOnly_bind (failsOfContent_contentAt _ (by omega) _ _) fun nextUpdate ↦ ?_
    exact failsOnly_bind (failsOfContent_asValue _) fun window ↦ failsOnly_ok _

theorem Head.failsOfContent_files {h : Head} (hlength : h.elements.length = 5) :
    FailsOfContent .manifest h.files := by
  rw [Head.files]
  refine failsOnly_bind (failsOfContent_contentAt _ (by omega) _ _) fun algorithm ↦ ?_
  split
  · refine failsOnly_bind (failsOfContent_contentAt _ (by omega) _ _) fun list ↦ ?_
    exact failsOfContent_readEach .fileList
      (FileEntry.failsOnly_ofElements (fun _ h ↦ .inside .fileAndHash h) (.value _)
        (fun _ ↦ failsOfContent_asValue _) (fun _ ↦ failsOfContent_asValue _)) 0 list
  · exact failsOfContent_asValue _

theorem failsOfContent_decode (content : Octets) : FailsOfContent .manifest (decode content) := by
  rw [decode]
  refine failsOnly_bind_of_ok (Head.failsOfContent_decode content) fun head hhead ↦ ?_
  obtain ⟨-, hlength, -⟩ := Head.decode_eq_ok_iff.mp hhead
  exact failsOnly_bind (Head.failsOfContent_files hlength) fun files ↦ failsOnly_ok _

end ManifestContent

/-! ## Route origin authorisations -/

theorem Prefix.failsOfContent_ofElements {outermost : Field} (family : AddressFamily)
    (item : Sequence) : FailsOfContent outermost (ofElements family item) := by
  rw [ofElements]
  refine failsOnly_bind_of_ok (failsOfContent_checkCount _ _ _) fun count hcount ↦ ?_
  obtain ⟨hallowed, rfl⟩ := Sequence.checkCount_eq_ok_iff.mp (inField_eq_ok_iff.mp hcount)
  have hpos : 0 < item.length := by
    simp only [List.mem_cons, List.not_mem_nil, or_false] at hallowed
    omega
  refine failsOnly_bind (failsOfContent_contentAt _ hpos _ _) fun bits ↦ ?_
  split
  · dsimp only
    split
    · next htwo =>
      refine failsOnly_bind (failsOfContent_contentAt _ (by omega) _ _) fun i ↦ ?_
      refine failsOnly_bind ?_ fun maxLength ↦ failsOfContent_asValue _
      exact failsOnly_bind (failsOfContent_asValue _) fun m ↦ failsOnly_ok _
    · exact failsOfContent_asValue _
  · exact failsOfContent_asValue _

namespace RoaContent

theorem failsOfContent_nonempty {outermost : Field} (s : Sequence) :
    FailsOfContent outermost (nonempty s) := by
  rw [nonempty]
  split
  · exact failsOfContent_asValue _
  · exact failsOnly_ok s

theorem failsOfContent_readBlock {outermost : Field} (seen : List AddressFamily)
    (block : Sequence) : FailsOfContent outermost (readBlock seen block) := by
  rw [readBlock]
  refine failsOnly_bind_of_ok (failsOfContent_checkCount _ _ _) fun count hcount ↦ ?_
  have htwo := Sequence.length_of_inField_checkCount hcount
  refine failsOnly_bind (failsOfContent_contentAt _ (by omega) _ _) fun octets ↦ ?_
  cases AddressFamily.ofOctets? octets with
  | none => exact failsOfContent_asValue _
  | some family =>
    dsimp only
    split
    · exact failsOfContent_asValue _
    · refine failsOnly_bind (failsOfContent_contentAt _ (by omega) _ _) fun list ↦ ?_
      refine failsOnly_bind (failsOfContent_nonempty list) fun list ↦ ?_
      refine failsOnly_bind ?_ fun prefixes ↦ failsOnly_ok _
      exact failsOfContent_readEach .addresses (Prefix.failsOfContent_ofElements family) 0 list

/-- The blocks are not counted.  They are gone through one by one. -/
theorem failsOfContent_readBlocks {outermost : Field} (seen : List AddressFamily) (position : Nat)
    (es : Sequence) : FailsOfContent outermost (readBlocks seen position es) := by
  induction es generalizing seen position with
  | nil => exact failsOnly_ok []
  | cons e es ih =>
    rw [readBlocks]
    refine failsOnly_bind (failsOnly_inField_of (Q := (·.IsOf position .sequence))
      (e.faults_contentAs position .sequence _) fun _ h ↦ .inside .ipAddrBlocks h.isInside)
      fun block ↦ ?_
    refine failsOnly_bind (failsOfContent_readBlock seen block) fun read ↦ ?_
    exact failsOnly_bind (ih (read.1 :: seen) (position + 1)) fun others ↦ failsOnly_ok _

theorem failsOfContent_decode (content : Octets) :
    FailsOfContent .routeOriginAttestation (decode content) := by
  rw [decode]
  refine failsOnly_bind (Rpki.failsOfContent_decode content) fun es ↦ ?_
  refine failsOnly_bind_of_ok (failsOfContent_checkCount _ _ _) fun count hcount ↦ ?_
  obtain ⟨hallowed, rfl⟩ := Sequence.checkCount_eq_ok_iff.mp (inField_eq_ok_iff.mp hcount)
  split
  · next hthree =>
    exact failsOnly_error (isOfContent_explicitVersion (List.ne_nil_of_length_pos (by omega)))
  · next hthree =>
    have htwo : es.length = 2 := by simpa [hthree] using hallowed
    refine failsOnly_bind (failsOfContent_contentAt _ (by omega) _ _) fun i ↦ ?_
    cases i.toUInt32? with
    | none => exact failsOfContent_asValue _
    | some asId =>
      refine failsOnly_bind (failsOfContent_contentAt _ (by omega) _ _) fun blocks ↦ ?_
      refine failsOnly_bind (failsOfContent_nonempty blocks) fun blocks ↦ ?_
      exact failsOnly_bind (failsOfContent_readBlocks [] 0 blocks) fun prefixes ↦ failsOnly_ok _

end RoaContent

/-! ## What an error says -/

/-- **Structural errors of contents are attributed.** -/
theorem structural_errors_attributed (content : Octets) (e : StructuralError) :
    (ManifestContent.decode content = .error (.structural e) → e.IsAttributed .manifest) ∧
      (RoaContent.decode content = .error (.structural e) →
        e.IsAttributed .routeOriginAttestation) :=
  ⟨fun h ↦ (ManifestContent.failsOfContent_decode content _ h).isAttributed,
    fun h ↦ (RoaContent.failsOfContent_decode content _ h).isAttributed⟩

/-- A manifest of no elements with an octet behind it, and a ROA of one prefix that has a NULL in
the place of its bits. -/
theorem structural_errors_attributed_nested :
    let manifest : Octets := [0x30, 0x00, 0xFF]
    let roa : Octets := [0x30, 0x11, 0x02, 0x01, 0x01, 0x30, 0x0C, 0x30, 0x0A, 0x04, 0x02, 0x00,
      0x01, 0x30, 0x04, 0x30, 0x02, 0x05, 0x00]
    let outer : StructuralError := ⟨some .manifest, .trailingData 1⟩
    let nested : StructuralError :=
      ⟨some .address, .unexpectedElement 0 .bitString ⟨0x05, []⟩ false⟩
    (ManifestContent.decode manifest = .error (.structural outer) ∧
        outer.IsAttributed .manifest) ∧
      RoaContent.decode roa = .error (.structural nested) ∧
        nested.IsAttributed .routeOriginAttestation := by
  intro manifest roa outer nested
  have hmanifest : ManifestContent.decode manifest = .error (.structural outer) := by
    decide +kernel +zetaReduce
  have hroa : RoaContent.decode roa = .error (.structural nested) := by
    decide +kernel +zetaReduce
  exact ⟨⟨hmanifest, (structural_errors_attributed manifest outer).1 hmanifest⟩, hroa,
    (structural_errors_attributed roa nested).2 hroa⟩

end Rpki
