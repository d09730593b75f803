import Rpki.Proofs.Machine.Content
import Rpki.Proofs.Machine.Prefix
import Rpki.Roa.Content

/-!
# Reading the content of a route origin authorisation on a machine

Lists and blocks have no operations of their own that a machine could stop at.  What they add is
where the elements of a prefix come from: all of them have been read from a sequence, so none is
longer than a number of 32 bits can say, and the bits of its address can be counted.
-/

set_option autoImplicit false

namespace Rpki

namespace Machine

variable {α : Type}

/-! ## Lists -/

/-- What `item` makes of each sequence in a sequence of them. -/
def readEach (f : Field) (item : Der.Sequence → ExceptT ParseError Option α) :
    Nat → Der.Sequence → ExceptT ParseError Option (List α)
  | _, [] => pure []
  | position, e :: es => do
    let s ← inField f (e.sequence position)
    let a ← item s
    let as ← readEach f item (position + 1) es
    return a :: as

/-- It is enough to know about sequences of elements that were read. -/
theorem computes_readEach {f : Field} {item : Der.Sequence → ExceptT ParseError Option α}
    {item' : Der.Sequence → Except ParseError α}
    (hitem : ∀ s, (∀ x ∈ s, x.IsRegular) → Computes (item s) (item' s)) (position : Nat)
    (es : Der.Sequence) :
    Computes (readEach f item position es) (Rpki.readEach f item' position es) := by
  induction es generalizing position with
  | nil => exact computes_ok []
  | cons e es ih =>
    refine computes_bind (computes_inField (computes_lift _)) fun s hs ↦ ?_
    have hregular := (Der.Element.sequence_eq_ok_iff.mp (inField_eq_ok_iff.mp hs)).1
    refine computes_bind (hitem s hregular) fun a _ ↦ ?_
    exact computes_bind (ih _) fun as _ ↦ computes_ok _

/-! ## Blocks -/

/-- Reads the family of a block, which must not be one that was seen before, and its prefixes. -/
def readBlock (seen : List AddressFamily) (block : Der.Sequence) :
    ExceptT ParseError Option (AddressFamily × List Prefix) := do
  let _ ← inField .roaIpAddressFamily (block.checkCount [2])
  let octets ← inField .addressFamily (block.octetString 0)
  match AddressFamily.ofOctets? octets with
  | none => asValue (throw .unknownFamily)
  | some family =>
    if family ∈ seen then asValue (throw .repeatedFamily)
    else
      let list ← inField .addresses (block.sequence 1)
      let list ← RoaContent.nonempty list
      let prefixes ← readEach .addresses (prefixOfElements family) 0 list
      return (family, prefixes)

/-- Reads blocks from a position on and puts their prefixes one after the other. -/
def readBlocks (seen : List AddressFamily) :
    Nat → Der.Sequence → ExceptT ParseError Option (List Prefix)
  | _, [] => pure []
  | position, e :: es => do
    let block ← inField .ipAddrBlocks (e.sequence position)
    let (family, prefixes) ← readBlock seen block
    let others ← readBlocks (family :: seen) (position + 1) es
    return prefixes ++ others

theorem computes_readBlock (seen : List AddressFamily) (block : Der.Sequence) :
    Computes (readBlock seen block) (RoaContent.readBlock seen block) := by
  refine computes_bind (computes_inField (computes_lift _)) fun _ _ ↦ ?_
  refine computes_bind (computes_inField (computes_lift _)) fun octets _ ↦ ?_
  cases AddressFamily.ofOctets? octets with
  | none => exact computes_asValue (computes_error _)
  | some family =>
    dsimp only
    split
    · exact computes_asValue (computes_error _)
    · refine computes_bind (computes_inField (computes_lift _)) fun list _ ↦ ?_
      refine computes_bind (computes_lift _) fun list _ ↦ ?_
      exact computes_bind (computes_readEach (fun _ ↦ computes_prefixOfElements) _ _) fun _ _ ↦
        computes_ok _

theorem computes_readBlocks (seen : List AddressFamily) (position : Nat) (es : Der.Sequence) :
    Computes (readBlocks seen position es) (RoaContent.readBlocks seen position es) := by
  induction es generalizing seen position with
  | nil => exact computes_ok []
  | cons e es ih =>
    refine computes_bind (computes_inField (computes_lift _)) fun block _ ↦ ?_
    refine computes_bind (computes_readBlock seen block) fun ⟨family, prefixes⟩ _ ↦ ?_
    exact computes_bind (ih _ _) fun others _ ↦ computes_ok _

/-! ## Content -/

/-- Reads the content. -/
def decodeRoaContent (content : Octets) : ExceptT ParseError Option RoaContent := do
  let elements ← inField .routeOriginAttestation (decodeSequence content)
  let count ← inField .routeOriginAttestation (elements.checkCount [2, 3])
  if count = 3 then throw (explicitVersion elements)
  else
    let number ← inField .asId (elements.integer 0)
    match number.toUInt32? with
    | none => asValue (throw .asIdOutOfRange)
    | some asId =>
      let blocks ← inField .ipAddrBlocks (elements.sequence 1)
      let blocks ← RoaContent.nonempty blocks
      let prefixes ← readBlocks [] 0 blocks
      return ⟨asId, prefixes⟩

/-- **The content of a ROA is read without stopping.** -/
theorem computes_decodeRoaContent (content : Octets) :
    Computes (decodeRoaContent content) (RoaContent.decode content) := by
  refine computes_bind (computes_inField (computes_decodeSequence content)) fun elements _ ↦ ?_
  refine computes_bind (computes_inField (computes_lift _)) fun count _ ↦ ?_
  split
  · exact computes_error _
  · refine computes_bind (computes_inField (computes_lift _)) fun number _ ↦ ?_
    cases number.toUInt32? with
    | none => exact computes_asValue (computes_error _)
    | some asId =>
      refine computes_bind (computes_inField (computes_lift _)) fun blocks _ ↦ ?_
      refine computes_bind (computes_lift _) fun blocks _ ↦ ?_
      exact computes_bind (computes_readBlocks _ _ _) fun _ _ ↦ computes_ok _

end Machine

end Rpki
