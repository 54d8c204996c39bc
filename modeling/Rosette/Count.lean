import Rosette.Record.Shown

/-!
# Counts

How often a pattern is repeated, or how many strokes it fills. A count that is read from a text is a
natural number; one that is put together by hand may be any value.
-/

namespace Rosette

/-- A count. -/
inductive Count where
  /-- There is no count. -/
  | absent
  | times (n : Int)
  /-- A value that is no whole number. -/
  | other (value : Value)
deriving Repr, Inhabited

namespace Count

def isAbsent : Count → Bool
  | .absent => true
  | _ => false

/-- The count as a field. -/
def toValue : Count → Value
  | .absent => .null
  | .times n => .int n
  | .other v => v

/-- The count that a field holds. -/
def ofValue : Value → Count
  | .null => .absent
  | .int n => .times n
  | v => .other v

/-- The number that a count is, where truth values count as 0 and 1. -/
def number? : Count → Option Int
  | .times n => some n
  | .other (.bool b) => some (if b then 1 else 0)
  | _ => none

/-- Whether there is a count, and not one of zero. -/
def isSet : Count → Bool
  | .absent => false
  | .times n => n != 0
  | .other v => v.truthy

/-- The text of a count. -/
def text (c : Count) : Except Numeral.Fault (List Char) := c.toValue.written

end Count

end Rosette
