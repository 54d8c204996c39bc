import Rosette.Binary64.Basic
import Rosette.Text.Blank
import Rosette.Text.Digit
import Rosette.Text.LetterCase

/-!
# Reading decimal numerals

A numeral is an optional sign, digits with an optional point and more digits (or a point and digits), and
an optional exponent: `e` or `E`, an optional sign, digits. Digits of every script count. `leadingNumeral?`
cuts the longest numeral off the front of a text, and `ofNumeral?` gives the value of one. `ofText?` reads a
whole text more freely: with white space around it, underscores between digits, and the names of the
numbers that have no digits.
-/

namespace Rosette.Binary64

open Text

/-- An optional sign and what follows it. -/
def splitSign : List Char → List Char × List Char
  | '+' :: cs => (['+'], cs)
  | '-' :: cs => (['-'], cs)
  | cs => ([], cs)

/-- The digits of a numeral with their point, and what follows them; `none` if there are no digits. -/
def splitDigits? (cs : List Char) : Option (List Char × List Char) :=
  let whole := cs.takeWhile isDecimal
  match whole, cs.dropWhile isDecimal with
  | [], '.' :: rest =>
    match rest.takeWhile isDecimal with
    | [] => none
    | frac => some ('.' :: frac, rest.dropWhile isDecimal)
  | [], _ => none
  | _, '.' :: rest =>
    some (whole ++ '.' :: rest.takeWhile isDecimal, rest.dropWhile isDecimal)
  | _, rest => some (whole, rest)

/-- The exponent in front of a text, if there is one, and what follows it. -/
def splitExponent (cs : List Char) : List Char × List Char :=
  match cs with
  | [] => ([], [])
  | mark :: rest =>
    if mark = 'e' || mark = 'E' then
      let (sign, rest) := splitSign rest
      match rest.takeWhile isDecimal with
      | [] => ([], cs)
      | ds => (mark :: sign ++ ds, rest.dropWhile isDecimal)
    else ([], cs)

/-- The longest numeral at the front of a text, if there is one. -/
def leadingNumeral? (cs : List Char) : Option (List Char) :=
  let (sign, rest) := splitSign cs
  match splitDigits? rest with
  | none => none
  | some (digits, rest) => some (sign ++ digits ++ (splitExponent rest).1)

/-- The whole number written by an exponent's sign and digits. -/
def exponentValue (cs : List Char) : Int :=
  match splitSign cs with
  | (['-'], ds) => -(decimalValue ds : Int)
  | (_, ds) => decimalValue ds

/-- The value of a text that is one numeral and nothing else. -/
def ofNumeral? (cs : List Char) : Option Binary64 :=
  let (sign, rest) := splitSign cs
  match splitDigits? rest with
  | none => none
  | some (digits, rest) =>
    let (exponent, rest) := splitExponent rest
    if rest.isEmpty then
      let whole := digits.takeWhile isDecimal
      let frac := (digits.dropWhile isDecimal).drop 1
      some (ofDecimal (sign == ['-']) (decimalValue (whole ++ frac))
        (exponentValue (exponent.drop 1) - frac.length))
    else none

/-- The value of the longest numeral in front of a text, behind white space. -/
def leading? (cs : List Char) : Option Binary64 := (leadingNumeral? (trim cs)).bind ofNumeral?

/-- White space that may stand around a number: all but the information separators. -/
def isMargin (c : Char) : Bool := isBlank c && !covers [(0x1c, 0x1f)] c.toNat

/-- The text without the underscores between its digits, if it has none elsewhere. `afterDigit` says whether
a digit stands before the text. -/
def joinDigits? (afterDigit : Bool) : List Char → Option (List Char)
  | [] => some []
  | c :: cs =>
    if c = '_' then
      if afterDigit && (cs.head?.map isDecimal).getD false then joinDigits? false cs else none
    else (joinDigits? (isDecimal c) cs).map (c :: ·)

/-- The number of a name, in small letters. -/
def ofName? (cs : List Char) : Option (Bool → Binary64) :=
  if cs = ['i', 'n', 'f'] || cs = ['i', 'n', 'f', 'i', 'n', 'i', 't', 'y'] then some infinite
  else if cs = ['n', 'a', 'n'] then some fun _ => nan
  else none

/-- The number that a text writes: a numeral, or the name of a number with an optional sign. -/
def ofText? (cs : List Char) : Option Binary64 :=
  let cs := ((cs.dropWhile isMargin).reverse.dropWhile isMargin).reverse
  let (sign, rest) := splitSign cs
  match ofName? (foldAscii rest) with
  | some make => some (make (sign == ['-']))
  | none => (joinDigits? false cs).bind ofNumeral?

end Rosette.Binary64
