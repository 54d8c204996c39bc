import Rosette.Log
import Rosette.Pattern.Expansion
import Rosette.Pattern.Reading
import Rosette.Stroke.Shorthand
import Rosette.Text.Blank

/-!
# From patterns to the shorthand of rows

A pattern is compiled to the shorthand of its row. A pattern that has no row compiles to nothing, and a
text that is no pattern to itself without its `$`; both leave a note. The mark of a solid ring compiles
to itself.
-/

namespace Rosette.Pattern

open Stroke (toShorthand)

/-- What is said about a pattern that was given up. -/
inductive Note where
  | noRow (fault : Expansion.Fault)
  | noPattern (problem : Problem)
deriving DecidableEq, Repr

/-- The note as an entry of the log. -/
def Note.entry : Note → Log.Entry
  | .noRow fault =>
    ⟨.warning, Log.channelName "compiler", "Pattern compilation failed: " ++ fault.message⟩
  | .noPattern problem =>
    ⟨.warning, Log.channelName "compiler",
      "Pattern string compilation failed: " ++ problem.diagnostic.text⟩

/-- The shorthand of a pattern. -/
def compile (limit : Int) (p : Pattern) : Except Expansion.Fault (List Char × List Note) :=
  if p.isSolid then .ok (Stroke.solidMark.toList, [])
  else
    match expand limit p with
    | .ok row => .ok (toShorthand row, [])
    | .error fault => if fault.isReported then .ok ([], [.noRow fault]) else .error fault

/-- Why a text is not compiled at all. -/
inductive CompileFault where
  | numeral (fault : Numeral.Fault)
  | expansion (fault : Expansion.Fault)
deriving DecidableEq, Repr

/-- The shorthand of a text. A text that does not begin with `$` is shorthand already. -/
def compileText (s : Settings) (source : String) : Except CompileFault (List Char × List Note) :=
  let cs := source.toList
  let inner := Text.trim cs
  if inner.isEmpty then .ok ([], [])
  else if inner = Stroke.solidMark.toList then .ok (inner, [])
  else
    match cs with
    | '$' :: rest =>
      match parse s source with
      | .ok p => (compile s.maxDepth p).mapError .expansion
      | .error (.numeral fault) => .error (.numeral fault)
      | .error (.problem problem) => .ok (rest, [.noPattern problem])
    | _ => .ok (cs, [])

end Rosette.Pattern
