/-!
# Splitting texts

A text is split at every separator, so there is always one part more than there are separators, and
the parts around two separators in a row, or at an end of the text, are empty.
-/

set_option autoImplicit false

namespace Rpki

namespace Text

/-- The parts of a text between its separators. -/
def split (separator : Char) : List Char → List (List Char)
  | [] => [[]]
  | c :: cs =>
    if c = separator then [] :: split separator cs
    else
      match split separator cs with
      | [] => [[c]]
      | part :: parts => (c :: part) :: parts

/-- The text in front of the first two separators in a row, and the text behind them. -/
def splitAtDouble? (separator : Char) : List Char → Option (List Char × List Char)
  | a :: b :: cs =>
    if a = separator ∧ b = separator then some ([], cs)
    else (splitAtDouble? separator (b :: cs)).map fun (front, back) ↦ (a :: front, back)
  | _ => none

end Text

end Rpki
