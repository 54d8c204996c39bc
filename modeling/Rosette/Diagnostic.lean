import Rosette.Location
import Rosette.Text.Quoted

/-!
# Diagnostics

What is reported about a faulty source: a message, the place of the offending character, and sometimes a
hint how to mend it.
-/

namespace Rosette

/-- A reported problem. -/
structure Diagnostic where
  message : String
  location : Location := .start
  suggestion : Option String := none
deriving DecidableEq, Repr

namespace Diagnostic

/-- The place and the message on one line. -/
def text (d : Diagnostic) : String := d.location.text ++ " " ++ d.message

/-- The text of a diagnostic whose place need not be one of a source. -/
def written (d : Diagnostic) : Except Numeral.Fault String :=
  Numeral.showing [d.location.line, d.location.column] d.text

/-- The diagnostic of a piece of a text, placed in the whole text. -/
def shifted (d : Diagnostic) (lines : Int) (columns offsets : Int := 0) : Diagnostic :=
  { d with location := d.location.shifted lines columns offsets }

/-- A short form for debugging, without the suggestion. -/
def summary (d : Diagnostic) : Except Numeral.Fault String :=
  let p := d.location
  Numeral.showing [p.offset, p.line, p.column]
    ("ParseError(" ++ Text.quoted d.message ++ ", position=" ++ toString p.offset ++
      ", line=" ++ toString p.line ++ ", column=" ++ toString p.column ++ ")")

end Diagnostic

end Rosette
