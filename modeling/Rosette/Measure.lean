import Rosette.Binary64.Reading
import Rosette.Record.Shown

/-!
# Measures

Radii, sizes and colour parameters. A measure that is read from a text is a binary64 number; one that is put
together by hand may be any value, and is written as the number nearest to it if there is one.
-/

namespace Rosette

/-- A number that measures something. -/
inductive Measure where
  | float (x : Binary64)
  /-- A value that is no binary64 number. -/
  | other (value : Value)
deriving Repr, Inhabited

namespace Measure

/-- Why a measure has no text. -/
inductive Fault where
  /-- A whole number lies beyond the greatest binary64 number. -/
  | tooLarge
  /-- A text is no numeral. -/
  | notNumeral (text : String)
  /-- A text in the place of a number would need an exponent. -/
  | exponent
  | notNumber (typeName : String)
deriving DecidableEq, Repr

def Fault.message : Fault → String
  | .tooLarge => "int too large to convert to float"
  | .notNumeral text => "could not convert string to float: " ++ Text.quoted text
  | .exponent => "Unknown format code 'f' for object of type 'str'"
  | .notNumber typeName =>
    "float() argument must be a string or a real number, not '" ++ typeName ++ "'"

/-- The measure as a field. -/
def toValue : Measure → Value
  | .float x => .float x
  | .other v => v

/-- The measure that a field holds. -/
def ofValue : Value → Measure
  | .float x => .float x
  | v => .other v

/-- The text of a whole number as a measure. -/
def wholeText (n : Int) : Except Fault (List Char) :=
  let x := Binary64.ofInt n
  if x = .infinite (decide (n < 0)) then .error .tooLarge else .ok x.plainText

/-- The text of a measure, without an exponent. Truth values count as 0 and 1. -/
def text : Measure → Except Fault (List Char)
  | .float x => .ok x.plainText
  | .other (.bool b) => wholeText (if b then 1 else 0)
  | .other (.int n) => wholeText n
  | .other (.text s) =>
    match Binary64.ofText? s.toList with
    | none => .error (.notNumeral s)
    | some x => if x.text.contains 'e' then .error .exponent else .ok x.text
  | .other (.float x) => .ok x.plainText
  | .other v => .error (.notNumber v.typeName)

end Measure

end Rosette
