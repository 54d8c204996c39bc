import Rosette.Color.Basic
import Rosette.Pattern.Basic

/-!
# Artwork documents

A document holds the rings of an artwork, the dot in its middle, named patterns and a palette.
-/

namespace Rosette

/-- A ring: its radius, the number of its elements, and the pattern they are drawn from. -/
structure Ring where
  radius : Measure
  elementCount : Count
  pattern : Pattern
  /-- The names of its colours in the palette, if it has colours of its own. -/
  colors : Option (List String) := none
deriving Repr, Inhabited

/-- The dot in the middle. What is not set keeps its default. -/
structure Dot where
  size : Option Measure := none
  color : Option String := none
  visible : Option Bool := none
deriving Repr, Inhabited

/-- A pattern under a name. -/
structure Definition where
  name : String
  pattern : Pattern
deriving Repr, Inhabited

/-- An artwork. -/
structure Document where
  rings : List Ring := []
  dot : Option Dot := none
  /-- Whether there are guides; they have no settings. -/
  guides : Bool := false
  /-- All definitions in order, with those that a later one of the same name replaces. -/
  definitions : List Definition := []
  palette : Option (Table Color) := none
deriving Repr, Inhabited

namespace Document

/-- The patterns by name; the last definition of a name counts, at the place of the first. -/
def variableTable (d : Document) : Table Pattern :=
  Table.ofList (d.definitions.map fun v => (v.name, v.pattern))

end Document

end Rosette
