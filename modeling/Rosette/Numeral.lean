import Rosette.Text.Digit
import Rosette.Text.Quoted

/-!
# Whole numbers as text

Counts are unbounded, but their texts are not: a run of more than `digitLimit` digits is neither read nor
written. Leading zeros count.
-/

namespace Rosette.Numeral

open Text

/-- Why a text is no usable whole number, or a number gets no text. -/
inductive Fault where
  /-- There are more digits than the limit allows. -/
  | tooLong
  /-- A character of the run has a digit value but is no decimal digit. -/
  | notDecimal (text : String)
deriving DecidableEq, Repr

/-- The most characters of a refused text, with its quotes, that a message shows. -/
def shownLimit : Nat := 200

def Fault.message : Fault → String
  | .tooLong => "a number has more digits than can be handled"
  | .notDecimal text =>
    "invalid literal for int() with base 10: " ++
      String.ofList ((quoted text).toList.take shownLimit)

/-- The most digits a text may have. -/
def digitLimit : Nat := 4300

/-- The number written by a run of digits. The limit applies to the decimal digits in front. -/
def read (cs : List Char) : Except Fault Nat :=
  if digitLimit < (cs.takeWhile isDecimal).length then .error .tooLong
  else if cs.all isDecimal then .ok (decimalValue cs)
  else .error (.notDecimal (String.ofList cs))

/-- The decimal digits of a number, the highest first. -/
def digits (n : Nat) : List Char := Nat.toDigits 10 n

/-- Whether a number has so few digits that it may be written. -/
def fits (n : Int) : Bool := (digits n.natAbs).length ≤ digitLimit

/-- The text of a number: a minus sign if it is negative, then its digits. -/
def write (n : Int) : Except Fault (List Char) :=
  let ds := digits n.natAbs
  if fits n then .ok (if n < 0 then '-' :: ds else ds) else .error .tooLong

/-- A text that shows numbers, if each of them may be written. -/
def showing (ns : List Int) (s : String) : Except Fault String :=
  if ns.all fits then .ok s else .error .tooLong

end Rosette.Numeral
