import Rosette.Numeral

/-!
# Places in a source text

A location is a line and a column, both counted from 1, with the offset of the character counted from 0.
`after` moves a location over a text, and `shifted` moves it from a piece of a text into the whole.
-/

namespace Rosette

/-- A place in a source text. -/
structure Location where
  line : Int
  column : Int
  offset : Int := 0
deriving DecidableEq, Repr, Inhabited

namespace Location

/-- The start of a text. -/
def start : Location := ⟨1, 1, 0⟩

/-- The place behind one character. A line feed starts a new line. -/
def advance (p : Location) (c : Char) : Location :=
  if c = '\n' then ⟨p.line + 1, 1, p.offset + 1⟩ else ⟨p.line, p.column + 1, p.offset + 1⟩

/-- The place behind a text. -/
def after (p : Location) (cs : List Char) : Location := cs.foldl advance p

/-- The place in an enclosing text. Columns move on the first line only. -/
def shifted (p : Location) (lines : Int) (columns offsets : Int := 0) : Location where
  line := p.line + lines
  column := if p.line = 1 then p.column + columns else p.column
  offset := p.offset + offsets

/-- Line and column with a colon between them. -/
def text (p : Location) : String := toString p.line ++ ":" ++ toString p.column

/-- The text of a place that need not be one of a source, so that its numbers may be too long. -/
def written (p : Location) : Except Numeral.Fault String :=
  Numeral.showing [p.line, p.column] p.text

theorem after_nil (p : Location) : p.after [] = p := rfl

theorem after_cons (p : Location) (c : Char) (cs : List Char) :
    p.after (c :: cs) = (p.advance c).after cs := rfl

theorem after_append (p : Location) (cs ds : List Char) :
    p.after (cs ++ ds) = (p.after cs).after ds := by
  simp [after]

end Location

end Rosette
