import Rosette.Color.Basic
import Rosette.Numeral
import Rosette.Text.Call
import Rosette.Text.Quoted

/-!
# Writing colours

The canonical text of a colour expression, with the parameters of a generator in their order. Palettes have
no text for references.
-/

namespace Rosette.Color

namespace Writing

/-- Why a colour has no text. -/
inductive Fault where
  /-- The colour is the name of another; it is given as messages show it. -/
  | reference (shown : String)
  | notColor (typeName : String)
  | numeral (fault : Numeral.Fault)
  | measure (fault : Measure.Fault)
deriving DecidableEq, Repr

def Fault.message : Fault → String
  | .reference shown => "Color reference " ++ shown ++ " cannot be written to a palette"
  | .notColor typeName => "Cannot format " ++ typeName
  | .numeral f => f.message
  | .measure f => f.message

/-- The text of a colour of three numbers. -/
def tripleText (name : List Char) (a b c : Value) : Except Fault (List Char) := do
  let a ← a.written.mapError .numeral
  let b ← b.written.mapError .numeral
  let c ← c.written.mapError .numeral
  .ok (Text.call name [a, b, c])

/-- The text of a parameter. -/
def paramText (e : String × Measure) : Except Fault (List Char) := do
  let x ← e.2.text.mapError .measure
  .ok (e.1.toList ++ ':' :: ' ' :: x)

end Writing

/-- The text of a colour. A record of a colour is written whatever values its parts are. -/
def text : Color → Except Writing.Fault (List Char)
  | .function name params => do
    let parts ← params.mapM Writing.paramText
    .ok (Text.call name.toList parts)
  | .rgb r g b => Writing.tripleText ['r', 'g', 'b'] (.int r) (.int g) (.int b)
  | .hsb h s b => Writing.tripleText ['h', 's', 'b'] (.int h) (.int s) (.int b)
  | .reference name => .error (.reference (Text.quoted name))
  | .other (.record .colorRgb [r, g, b]) => Writing.tripleText ['r', 'g', 'b'] r g b
  | .other (.record .colorHsb [h, s, b]) => Writing.tripleText ['h', 's', 'b'] h s b
  | .other (.record .colorReference [name]) => .error (.reference (.ofList name.shown))
  | .other v => .error (.notColor v.typeName)

end Rosette.Color
