import Rosette.Location
import Rosette.Text.Blank
import Rosette.Text.Split

/-!
# Lines of a document

A text is cut at its line feeds, and each line is trimmed. A line remembers where its text begins.
-/

namespace Rosette.Document

/-- A trimmed line. -/
structure Line where
  text : List Char
  /-- Counted from 1. -/
  number : Nat
  /-- The offset of the first character of `text` in the source. -/
  offset : Nat
  /-- How many blanks stood in front. -/
  indent : Nat
deriving DecidableEq, Repr

namespace Line

/-- The place of a character of the line. -/
def location (l : Line) (column : Nat := 0) : Location :=
  ⟨l.number, l.indent + 1 + column, l.offset + column⟩

/-- A raw line that begins at `offset`. -/
def ofRaw (number offset : Nat) (raw : List Char) : Line :=
  let indent := (raw.takeWhile Text.isBlank).length
  ⟨Text.trim raw, number, offset + indent, indent⟩

/-- Raw lines in order, the first of which has a number and an offset. -/
def ofRaws (number offset : Nat) : List (List Char) → List Line
  | [] => []
  | raw :: raws => ofRaw number offset raw :: ofRaws (number + 1) (offset + raw.length + 1) raws

/-- The lines of a source. -/
def ofSource (source : List Char) : List Line := ofRaws 1 0 (Text.splitAtChar '\n' source)

/-- Whether nothing stands on the line. -/
def isEmpty (l : Line) : Bool := l.text.isEmpty

/-- Whether the line is a comment. -/
def isComment (l : Line) : Bool := [';', ';'].isPrefixOf l.text

end Line

/-- The sections of a document. -/
inductive Section where
  | rings
  | dot
  | guides
  | definitions
  | palette
deriving DecidableEq, Repr

/-- All sections, in the order in which they are written. -/
def Section.all : List Section := [.rings, .dot, .guides, .definitions, .palette]

/-- The line that opens a section. -/
def Section.header : Section → String
  | .rings => "rings:"
  | .dot => "dot:"
  | .guides => "guides:"
  | .definitions => "variables:"
  | .palette => "palette:"

/-- The section that a line opens. -/
def Line.header? (l : Line) : Option Section := Section.all.find? fun s => s.header.toList == l.text

end Rosette.Document
