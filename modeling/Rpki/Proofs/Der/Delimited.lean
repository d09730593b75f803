import Rpki.Manifest.Content
import Rpki.Proofs.Der.Sequence
import Rpki.Roa.Content

/-!
# Values in DER say where they end

No value is the beginning of another one (`Value.Spans.eq_nil_of_append`).  This is so for values
of any nesting and with indefinite lengths in them, since stepping over a value does not look at
what is behind it.  So a SEQUENCE that has been read can neither be cut nor be continued: with
octets cut off its end no value is left, and what is put behind it is only counted, whatever it is.

`Exhausts` says this of any function that reads octets as a whole.  What is made of the elements
afterwards does not change it (`Exhausts.bind`), and so it holds of the contents of manifests and
ROAs.
-/

set_option autoImplicit false

namespace Rpki

namespace Der

namespace Value

/-- Stepping over a value does not look at what is behind it. -/
theorem Spans.skip?_append {v : Octets} (h : Spans .single v) (s : Octets) :
    skip? (v ++ s) = some s :=
  skip?_eq_some_iff.mpr ⟨v, h, rfl⟩

/-- **No value is the beginning of another one.** -/
theorem Spans.eq_nil_of_append {v w rest : Octets} (hv : Spans .single v)
    (hw : Spans .single w) (heq : w = v ++ rest) : rest = [] := by
  have hskip : skip? w = some rest := heq ▸ hv.skip?_append rest
  have hskip' : skip? w = some [] := by rw [← hw.skip?_append [], List.append_nil]
  exact Option.some.inj (hskip.symm.trans hskip')

/-- With octets cut off its end, a value is not stepped over any more. -/
theorem Spans.skip?_eq_none_of_prefix {v p : Octets} (h : Spans .single v) (hp : p <+: v)
    (hne : p ≠ v) : skip? p = none := by
  obtain ⟨cut, rfl⟩ := hp
  refine Option.eq_none_iff_forall_not_mem.mpr fun rest hskip ↦ hne ?_
  obtain ⟨w, hw, rfl⟩ := skip?_eq_some_iff.mp hskip
  have hnil := hw.eq_nil_of_append h (List.append_assoc w rest cut)
  rw [(List.append_eq_nil_iff.mp hnil).2, List.append_nil]

end Value

/-! ## Reading octets as a whole -/

/-- What has been read is all there is: with octets cut off its end it is an error, and so it is
with further octets behind it, by their number. -/
def Exhausts {ε α : Type} (decode : Octets → Except ε α) (trailing : Nat → ε) (cut : ε) : Prop :=
  ∀ d a, decode d = .ok a →
    (∀ s, s ≠ [] → decode (d ++ s) = .error (trailing s.length)) ∧
      ∀ p, p <+: d → p ≠ d → decode p = .error cut

namespace Exhausts

variable {ε ε' α β : Type} {decode : Octets → Except ε α} {trailing : Nat → ε} {cut : ε}

/-- What is done with the result does not matter. -/
theorem bind (h : Exhausts decode trailing cut) (next : α → Except ε β) :
    Exhausts (fun d ↦ decode d >>= next) trailing cut := by
  intro d b hd
  obtain ⟨a, ha, -⟩ := bind_eq_ok_iff.mp hd
  obtain ⟨hmore, hless⟩ := h d a ha
  exact ⟨fun s hs ↦ congrArg (· >>= next) (hmore s hs),
    fun p hp hne ↦ congrArg (· >>= next) (hless p hp hne)⟩

theorem mapError (h : Exhausts decode trailing cut) (f : ε → ε') :
    Exhausts (fun d ↦ (decode d).mapError f) (fun n ↦ f (trailing n)) (f cut) := by
  intro d a hd
  obtain ⟨hmore, hless⟩ := h d a (mapError_eq_ok_iff.mp hd)
  exact ⟨fun s hs ↦ congrArg (Except.mapError f) (hmore s hs),
    fun p hp hne ↦ congrArg (Except.mapError f) (hless p hp hne)⟩

end Exhausts

namespace Sequence

/-- **A SEQUENCE that has been read is all there is.** -/
theorem exhausts_decode :
    Exhausts decode (fun n ↦ ⟨none, .trailingData n⟩) ⟨none, .decoding⟩ := by
  intro d es hd
  obtain ⟨hregular, hlt, rfl⟩ := decode_eq_ok_iff.mp hd
  have hspans := (Element.isRegular_ofSequence hregular hlt).spans
  refine ⟨fun s hs ↦ ?_, fun p hp hne ↦ ?_⟩
  · rw [decode, hspans.skip?_append]
    cases s with
    | nil => exact absurd rfl hs
    | cons b s => rfl
  · rw [decode, hspans.skip?_eq_none_of_prefix hp hne]
    rfl

/-- The same in a field, whatever is made of the elements. -/
theorem exhausts_inField {α : Type} (f : Field) (next : Sequence → Except ParseError α) :
    Exhausts (fun d ↦ inField f (decode d) >>= next)
      (fun n ↦ .structural ⟨some f, .trailingData n⟩) (.structural ⟨some f, .decoding⟩) :=
  (exhausts_decode.mapError _).bind next

end Sequence

end Der

open Der

/-- **SEQUENCEs say where they end**, and so do the contents of manifests and of ROAs, a manifest
also if it is read up to the times only. -/
theorem contents_exhaust :
    Exhausts Sequence.decode (fun n ↦ ⟨none, .trailingData n⟩) ⟨none, .decoding⟩ ∧
      Exhausts ManifestContent.Head.decode (fun n ↦ .structural ⟨some .manifest, .trailingData n⟩)
        (.structural ⟨some .manifest, .decoding⟩) ∧
      Exhausts ManifestContent.decode (fun n ↦ .structural ⟨some .manifest, .trailingData n⟩)
        (.structural ⟨some .manifest, .decoding⟩) ∧
      Exhausts RoaContent.decode
        (fun n ↦ .structural ⟨some .routeOriginAttestation, .trailingData n⟩)
        (.structural ⟨some .routeOriginAttestation, .decoding⟩) := by
  have hhead : Exhausts ManifestContent.Head.decode
      (fun n ↦ .structural ⟨some .manifest, .trailingData n⟩)
      (.structural ⟨some .manifest, .decoding⟩) :=
    Sequence.exhausts_inField .manifest _
  exact ⟨Sequence.exhausts_decode, hhead, hhead.bind _,
    Sequence.exhausts_inField .routeOriginAttestation _⟩

/-- The content of a ROA for `10.0.0.0/8`, with one more octet and with one less. -/
theorem contents_exhaust_one_prefix :
    let d : Octets :=
      [0x30, 0x15, 0x02, 0x03, 0x00, 0xFD, 0xE8, 0x30, 0x0E, 0x30, 0x0C, 0x04, 0x02, 0x00, 0x01,
       0x30, 0x06, 0x30, 0x04, 0x03, 0x02, 0x00, 0x0A]
    let c : RoaContent := ⟨65000, [⟨.ipv4, .v4 ⟨[10, 0, 0, 0], rfl⟩, 8, 8⟩]⟩
    (RoaContent.decode d = .ok c ∧ d.dropLast <+: d ∧ d.dropLast ≠ d) ∧
      RoaContent.decode (d ++ [0xFF]) =
        .error (.structural ⟨some .routeOriginAttestation, .trailingData 1⟩) ∧
      RoaContent.decode d.dropLast =
        .error (.structural ⟨some .routeOriginAttestation, .decoding⟩) := by
  intro d c
  have hd : RoaContent.decode d = .ok c := by decide +kernel +zetaReduce
  have hprefix : d.dropLast <+: d := List.dropLast_prefix d
  have hne : d.dropLast ≠ d := by decide +kernel +zetaReduce
  obtain ⟨-, -, -, hroa⟩ := contents_exhaust
  obtain ⟨hmore, hless⟩ := hroa d c hd
  exact ⟨⟨hd, hprefix, hne⟩, hmore [0xFF] (by decide), hless _ hprefix hne⟩

end Rpki
