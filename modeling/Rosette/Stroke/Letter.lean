import Rosette.Misfit
import Rosette.Record.Shown
import Rosette.Stroke.Basic

/-!
# Letters of any sort

The letter of a symbol or a stroke that is put together by hand may be any value. One that is no text has no
capital.
-/

namespace Rosette.Stroke

/-- A letter, as a capital if rotated. -/
def letterValue (letter : Value) (rotated : Bool) : Except Misfit Value :=
  match letter with
  | .text s => .ok (.text (.ofList (letterText s rotated)))
  | v => if rotated then .error (.noField v.typeName "upper") else .ok v

/-- The shorthand of strokes with letters of any sort, each with what says whether it is rotated. -/
def lettersText (strokes : List (Value × Value)) : Except Misfit (List Char) := do
  let letters ← strokes.mapM fun s => letterValue s.1 s.2.truthy
  match Misfit.ofTexts? 0 letters with
  | none => .ok (letters.flatMap Value.plain)
  | some m => .error m

end Rosette.Stroke
