import Rosette.Record.Value

/-!
# Misfits

A tree put together by hand may hold values of the wrong sort. They are found when the value is used, and
are not reported among the faults of a pattern. Values are told by their kinds.
-/

namespace Rosette

/-- A value of the wrong sort. -/
inductive Misfit where
  /-- The value repeats nothing. -/
  | notTimes (typeName : String)
  /-- The value cannot be shared out among the strokes of a row. -/
  | notTiling (typeName : String)
  /-- The value has no members. -/
  | noMembers (typeName : String)
  /-- The members of the value cannot be counted. -/
  | noLength (typeName : String)
  /-- The value has no first member. -/
  | noFirst (typeName : String)
  /-- The value has no field of a name. -/
  | noField (typeName : String) (name : String)
  /-- No text can be put behind the value. -/
  | notBefore (typeName : String)
  /-- The value cannot be put behind a text. -/
  | notBehind (typeName : String)
  /-- A member of a list of texts is no text. -/
  | notText (index : Nat) (typeName : String)
  /-- A value in the place of a list of texts has no members. -/
  | noTexts
  /-- Neither of two values comes before the other. -/
  | notOrdered (left right : String)
  /-- The value is no key of an object. -/
  | notKey (typeName : String)
deriving DecidableEq, Repr

namespace Misfit

/-- A list tells what it can be joined with in its own words. -/
def message : Misfit → String
  | .notTimes typeName => "can't multiply sequence by non-int of type '" ++ typeName ++ "'"
  | .notTiling typeName => "unsupported operand type(s) for divmod(): '" ++ typeName ++ "' and 'int'"
  | .noMembers typeName => "'" ++ typeName ++ "' object is not iterable"
  | .noLength typeName => "object of type '" ++ typeName ++ "' has no len()"
  | .noFirst typeName => "'" ++ typeName ++ "' object is not subscriptable"
  | .noField typeName name => "'" ++ typeName ++ "' object has no attribute '" ++ name ++ "'"
  | .notBefore typeName =>
    if typeName = (Value.list []).typeName then
      "can only concatenate " ++ typeName ++ " (not \"str\") to " ++ typeName
    else "unsupported operand type(s) for +=: '" ++ typeName ++ "' and 'str'"
  | .notBehind typeName => "can only concatenate str (not \"" ++ typeName ++ "\") to str"
  | .notText index typeName =>
    "sequence item " ++ toString index ++ ": expected str instance, " ++ typeName ++ " found"
  | .noTexts => "can only join an iterable"
  | .notOrdered left right =>
    "'<' not supported between instances of '" ++ left ++ "' and '" ++ right ++ "'"
  | .notKey typeName => "keys must be str, int, float, bool or None, not " ++ typeName

/-- What is wrong with values as texts, by the first that is none, if there is one. Values are counted from
`index`. -/
def ofTexts? (index : Nat) : List Value → Option Misfit
  | [] => none
  | .text _ :: vs => ofTexts? (index + 1) vs
  | v :: _ => some (.notText index v.typeName)

/-- What is wrong with a value as the number of strokes to fill. A number with a fraction can be shared out,
but its share repeats nothing. -/
def ofTiling : Value → Misfit
  | .float x => .notTimes (Value.float x).typeName
  | v => .notTiling v.typeName

end Misfit

end Rosette
