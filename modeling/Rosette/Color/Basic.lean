import Rosette.Measure

/-!
# Colours

What a palette gives to a name: a colour in one of two colour spaces, or a generator with named numbers.
-/

namespace Rosette

/-- A colour of a palette. Palettes put together by hand may hold any value in its place. -/
inductive Color where
  /-- A generator of colours and its parameters. -/
  | function (name : String) (params : Table Measure)
  | rgb (r g b : Int)
  | hsb (h s b : Int)
  /-- The name of another colour of the palette. -/
  | reference (name : String)
  /-- A value that is no colour. -/
  | other (value : Value)
deriving Repr, Inhabited

namespace Color

/-- The record of a colour. -/
def toValue : Color → Value
  | .function name params =>
    .record .colorFunction [.text name, .table (params.map fun e => (e.1, e.2.toValue))]
  | .rgb r g b => .record .colorRgb [.int r, .int g, .int b]
  | .hsb h s b => .record .colorHsb [.int h, .int s, .int b]
  | .reference name => .record .colorReference [.text name]
  | .other v => v

/-- The colour of a record; any other value stands for itself. Names are taken as their plain text. -/
def ofValue : Value → Color
  | .record .colorFunction [name, .table entries] =>
    .function (.ofList name.plain) (entries.map fun e => (e.1, .ofValue e.2))
  | .record .colorFunction [name, .pairs entries] =>
    .function (.ofList name.plain) (entries.map fun e => (.ofList e.1.plain, .ofValue e.2))
  | .record .colorRgb [.int r, .int g, .int b] => .rgb r g b
  | .record .colorHsb [.int h, .int s, .int b] => .hsb h s b
  | .record .colorReference [.text name] => .reference name
  | v => .other v

end Color

end Rosette
