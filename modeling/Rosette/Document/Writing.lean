import Rosette.Color.Writing
import Rosette.Document.Basic
import Rosette.Document.Line
import Rosette.Document.Record
import Rosette.Pattern.Writing

/-!
# Writing documents

The canonical text of a document: its sections in fixed order with a blank line between them, and a line
feed at the end. Sections that hold nothing are left out.
-/

namespace Rosette

namespace Document.Writing

/-- Why a document has no text. -/
inductive Fault where
  | pattern (fault : Pattern.Writing.Fault)
  | color (fault : Color.Writing.Fault)
  | numeral (fault : Numeral.Fault)
  | measure (fault : Measure.Fault)
  | misfit (misfit : Misfit)
deriving DecidableEq, Repr

def Fault.message : Fault → String
  | .pattern f => f.message
  | .color f => f.message
  | .numeral f => f.message
  | .measure f => f.message
  | .misfit m => m.message

/-- The text of a pattern in a document. -/
def patternText (p : Pattern) : Except Fault (List Char) := p.text.mapError .pattern

/-- The text of a radius or a size. -/
def measureText (m : Measure) : Except Fault (List Char) := m.text.mapError .measure

end Document.Writing

open Document.Writing

/-- The line of a ring. -/
def Ring.text (r : Ring) : Except Document.Writing.Fault (List Char) := do
  let radius ← measureText r.radius
  let count ← r.elementCount.text.mapError .numeral
  let pattern ← patternText r.pattern
  let colors :=
    match r.colors with
    | none | some [] => []
    | some names => ' ' :: '[' :: [',', ' '].intercalate (names.map String.toList) ++ [']']
  .ok ('O' :: Text.call [] [radius, count] ++ ':' :: ' ' :: pattern ++ colors)

/-- The lines of a dot: what is set, in fixed order. -/
def Dot.lines (d : Dot) : Except Document.Writing.Fault (List (List Char)) := do
  let size ← d.size.mapM measureText
  let line := fun (name : String) (value : List Char) => name.toList ++ ':' :: ' ' :: value
  .ok ((size.map (line "size")).toList ++
    (d.color.map fun c => line "color" c.toList).toList ++
    (d.visible.map fun b => line "visible" (if b then "true" else "false").toList).toList)

/-- The line of a definition. -/
def Definition.text (v : Definition) : Except Document.Writing.Fault (List Char) := do
  let pattern ← patternText v.pattern
  .ok ('@' :: v.name.toList ++ ' ' :: '=' :: ' ' :: pattern)

namespace Document

/-- The line of a colour of the palette. -/
def colorLineText (e : String × Color) : Except Document.Writing.Fault (List Char) := do
  let color ← e.2.text.mapError .color
  .ok (e.1.toList ++ ' ' :: '=' :: ' ' :: color)

/-- The lines of a section, if it is written at all. -/
def sectionLines? (d : Document) : Section → Except Writing.Fault (Option (List (List Char)))
  | .rings =>
    if d.rings.isEmpty then .ok none else (d.rings.mapM Ring.text).map some
  | .dot => d.dot.mapM Dot.lines
  | .guides => .ok (if d.guides then some [] else none)
  | .definitions =>
    if d.definitions.isEmpty then .ok none else (d.definitions.mapM Definition.text).map some
  | .palette =>
    match d.palette with
    | none => .ok none
    | some palette => (palette.mapM colorLineText).map some

/-- The text of a section, if it is written at all. -/
def sectionText? (d : Document) (sec : Section) : Except Writing.Fault (Option (List Char)) := do
  let lines? ← d.sectionLines? sec
  .ok (lines?.map fun lines => ['\n'].intercalate (sec.header.toList :: lines))

/-- The text of a document. -/
def text (d : Document) : Except Writing.Fault (List Char) := do
  let sections ← Section.all.mapM d.sectionText?
  .ok (['\n', '\n'].intercalate (sections.filterMap id) ++ ['\n'])

end Document

/-! ## Values -/

/-- The text of what was found, unless a misfit ended it. -/
def Found.text {α : Type} (write : α → Except Document.Writing.Fault (List Char)) (found : Found α) :
    Except Document.Writing.Fault (List Char) := do
  let t ← write found.value
  match found.misfit? with
  | none => .ok t
  | some m => .error (.misfit m)

/-- The line of a ring that is given as a value. -/
def Ring.textOfValue (v : Value) : Except Document.Writing.Fault (List Char) :=
  (Ring.ofValue v).text fun r? => (r?.map Ring.text).getD (.ok [])

/-- The text of a document that is given as a value. -/
def Document.textOfValue (v : Value) : Except Document.Writing.Fault (List Char) :=
  (Document.ofValue v).text Document.text

end Rosette
