import Rosette.Text.LetterCase

/-!
# Strokes

A pattern comes down to a row of strokes. A stroke is a letter of the stroke alphabet, drawn upright or
rotated; a row of strokes is what a ring is drawn from.
-/

namespace Rosette

/-- One stroke of a row. Its letter is meant to be one of `Stroke.alphabet`. -/
structure Stroke where
  char : String
  rotated : Bool := false
deriving DecidableEq, Repr, Inhabited

namespace Stroke

/-- The letters of strokes. -/
def alphabet : List String := ["d", "h", "l", "v", "x"]

/-- The mark of a ring that is drawn as one band, without strokes. -/
def solidMark : String := "-"

/-- The letter of the stroke that fills gaps. -/
def spacerLetter : String := "x"

/-- The stroke that fills gaps. -/
def spacer : Stroke := ⟨spacerLetter, false⟩

/-- The stroke that a character writes: a capital letter is a rotated one. -/
def ofChar? (c : Char) : Option Stroke :=
  let letter := String.singleton c.toLower
  if alphabet.contains letter then some ⟨letter, c != c.toLower⟩ else none

/-- A letter in capitals if rotated, as it is otherwise. -/
def letterText (char : String) (rotated : Bool) : List Char :=
  if rotated then Text.upper char.toList else char.toList

/-- The written form of a stroke. -/
def text (s : Stroke) : List Char := letterText s.char s.rotated

end Stroke

end Rosette
