import Rosette.Numeral
import Rosette.Pattern.Basic

/-!
# Words of stroke letters

A word such as `d3H2` is a row of stroke letters with repeat counts. Other characters are passed over. A
word without stroke letters stays whole, in small letters, as a symbol that draws nothing.
-/

namespace Rosette.Pattern

open Text

/-- The repeat count written by the digits behind a letter, if there are any. -/
def countOfDigits (ds : List Char) : Except Numeral.Fault Count :=
  if ds.isEmpty then .ok .absent else (Numeral.read ds).map fun n => .times n

/-- The stroke letters of a word as symbols. -/
def wordSymbols : List Char → Except Numeral.Fault (List Pattern)
  | [] => .ok []
  | c :: cs =>
    match Stroke.ofChar? c with
    | none => wordSymbols cs
    | some s =>
      match countOfDigits (cs.takeWhile isDigit) with
      | .error f => .error f
      | .ok count =>
        (wordSymbols (cs.dropWhile isDigit)).map (.symbol s.char s.rotated count :: ·)
termination_by cs => cs.length
decreasing_by
  · simp
  · have := (List.dropWhile_sublist isDigit (l := cs)).length_le
    simp only [List.length_cons]; omega

/-- The pattern of a word: one symbol, or a sequence of several. -/
def ofWord (cs : List Char) : Except Numeral.Fault Pattern :=
  match wordSymbols cs with
  | .error f => .error f
  | .ok [] => .ok (.symbol (String.ofList (lower cs)) false .absent)
  | .ok [p] => .ok p
  | .ok ps => .ok (.sequence ps .absent)

end Rosette.Pattern
