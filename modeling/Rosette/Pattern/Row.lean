import Rosette.Pattern.Expansion
import Rosette.Pattern.Reading

/-!
# From texts to rows of strokes

Reading a pattern and unrolling it in one go. What goes wrong while unrolling is reported at the start of
the text.
-/

namespace Rosette.Pattern

/-- Why a text has no row of strokes. -/
inductive RowFault where
  | reading (fault : Fault)
  | expansion (fault : Expansion.Fault)
deriving DecidableEq, Repr

/-- What is reported about a text that is no pattern; a number that is not read is no such report. -/
def Fault.diagnostic? : Fault → Option Diagnostic
  | .problem p => some p.diagnostic
  | .numeral _ => none

/-- What is reported about a text without a row, if its fault is reported. -/
def RowFault.diagnostic? : RowFault → Option Diagnostic
  | .reading fault => fault.diagnostic?
  | .expansion fault => if fault.isReported then some ⟨fault.message, .start, none⟩ else none

/-- The pattern that a text writes, with its row. -/
def parseRow (s : Settings) (source : String) : Except RowFault (Pattern × List Stroke) :=
  match parse s source with
  | .error fault => .error (.reading fault)
  | .ok p =>
    match expand s.maxDepth p with
    | .error fault => .error (.expansion fault)
    | .ok row => .ok (p, row)

end Rosette.Pattern
