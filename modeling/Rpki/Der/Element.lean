import Rpki.Der.Value

/-!
# Elements

A sequence is read one level deep.  An `Element` is a value in it with its identifier and the octets
of its content, which are taken apart only when somebody asks what they mean.  The content of a
constructed element has been stepped over once, so it is known to hold values; whether these in
turn can be elements is a question for later.

An element has a definite length in its shortest form, so its octets are determined by what is
kept: `Element.octets` writes back exactly what was read.
-/

set_option autoImplicit false

namespace Rpki

namespace Der

/-- A value of a sequence. -/
structure Element where
  tag : Tag
  /-- Is the content itself made of values? -/
  constructed : Bool
  content : Octets
deriving DecidableEq

namespace Element

/-- The complete octets of an element, header and content. -/
def octets (e : Element) : Octets :=
  e.tag.octets e.constructed ++ Length.octets e.content.length ++ e.content

/-- Takes an element. -/
def read? (s : Octets) : Option (Element × Octets) := do
  let (h, body) ← Header.read? s
  match h.length with
  | .indefinite => none
  | .definite n => do
    let (content, rest) ← FixedOctets.take? n body
    if h.tag = .endOfContents ∨ (h.constructed = true ∧ Value.isContent content.val = false) then
      none
    else
      return (⟨h.tag, h.constructed, content.val⟩, rest)

/-- Takes at most `limit` elements, which have to use up the octets. -/
def readWithin : Nat → Octets → Option (List Element)
  | _, [] => some []
  | 0, _ => none
  | limit + 1, s => do
    let (e, rest) ← read? s
    let es ← readWithin limit rest
    return e :: es

/-- Takes the elements that make up the octets.  No element is empty, so there are no more of them
than octets. -/
def readAll? (s : Octets) : Option (List Element) := readWithin s.length s

end Element

end Der

end Rpki
