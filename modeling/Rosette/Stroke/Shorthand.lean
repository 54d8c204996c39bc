import Rosette.Numeral
import Rosette.Repetition
import Rosette.Stroke.Basic

/-!
# The shorthand of rows

A row of strokes written flat, one letter for each stroke and capital for a rotated one. When read, a
letter may be followed by digits that repeat it; any other character is passed over.
-/

namespace Rosette.Stroke

open Text

/-- Why a shorthand is not read. -/
inductive ShorthandFault where
  | numeral (fault : Numeral.Fault)
  /-- A repeat count does not fit into a word. -/
  | overflow
deriving DecidableEq, Repr

/-- The repeat count written by the digits behind a letter; none mean once. -/
def repeatCount (ds : List Char) : Except Numeral.Fault Nat :=
  if ds.isEmpty then .ok 1 else Numeral.read ds

/-- The row that a shorthand writes. -/
def ofShorthand : List Char → Except ShorthandFault (List Stroke)
  | [] => .ok []
  | c :: cs =>
    match ofChar? c with
    | none => ofShorthand cs
    | some s =>
      match repeatCount (cs.takeWhile isDigit) with
      | .error f => .error (.numeral f)
      | .ok n =>
        match Repetition.copies? n [s] with
        | none => .error .overflow
        | some row => (ofShorthand (cs.dropWhile isDigit)).map (row ++ ·)
termination_by cs => cs.length
decreasing_by
  · simp
  · have := (List.dropWhile_sublist isDigit (l := cs)).length_le
    simp only [List.length_cons]; omega

/-- The shorthand of a row. -/
def toShorthand (row : List Stroke) : List Char := row.flatMap text

end Rosette.Stroke
