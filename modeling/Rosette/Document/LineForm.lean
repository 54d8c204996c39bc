import Rosette.Binary64.Reading
import Rosette.Text.Digit
import Rosette.Text.Split
import Rosette.Text.Word

/-!
# The forms of lines

What a line of each section looks like, apart from what its pattern or colour means:

    O(radius, count): pattern [A, B]
    name: value
    @name = pattern
    A = colour

Each form is found from the left; the text that it ends with is everything that is left, and the form tells
in which column of the line that text begins, counted from 0.
-/

namespace Rosette.Document

open Text

/-- A piece of a line with its column. -/
structure Tail where
  text : List Char
  column : Nat
deriving DecidableEq, Repr

/-- What is left of a line behind white space; there has to be something. -/
def tailOf? (line rest : List Char) : Option Tail :=
  let text := trimLeft rest
  if text.isEmpty then none else some ⟨text, line.length - text.length⟩

/-! ## Rings -/

/-- The form of a ring. -/
structure RingForm where
  radius : List Char
  count : List Char
  pattern : Tail
deriving DecidableEq, Repr

/-- Digits with an optional point and digits, and what follows them. -/
def splitRadius? (cs : List Char) : Option (List Char × List Char) :=
  match cs.takeWhile isDecimal, cs.dropWhile isDecimal with
  | [], _ => none
  | whole, '.' :: rest =>
    match rest.takeWhile isDecimal with
    | [] => none
    | frac => some (whole ++ '.' :: frac, rest.dropWhile isDecimal)
  | whole, rest => some (whole, rest)

/-- The form of a line that defines a ring. -/
def ringForm? (line : List Char) : Option RingForm := do
  let rest ← ['O', '('].isPrefixOf? line
  let (radius, rest) ← splitRadius? rest
  let rest ← [','].isPrefixOf? rest
  let rest := trimLeft rest
  let count := rest.takeWhile isDecimal
  if count.isEmpty then none
  else
    let rest ← [')', ':'].isPrefixOf? (rest.dropWhile isDecimal)
    let pattern ← tailOf? line rest
    some ⟨radius, count, pattern⟩

/-- The name of a colour: one capital letter between blanks. -/
def colorName? (cs : List Char) : Option String :=
  match trim cs with
  | [c] => if c.isUpper then some (String.singleton c) else none
  | _ => none

/-- The names of colours in the text between brackets. -/
def colorNames? (cs : List Char) : Option (List String) := (splitAtChar ',' cs).mapM colorName?

/-- A pattern text without the colours in brackets at its end, and the names of those. -/
def splitColors (cs : List Char) : List Char × Option (List String) :=
  let behind := (cs.reverse.takeWhile (· != '[')).reverse
  match cs.reverse.dropWhile (· != '[') with
  | [] => (cs, none)
  | _ :: before =>
    match (trimRight behind).reverse with
    | ']' :: names =>
      match colorNames? names.reverse with
      | some names => (trimRight before.reverse, some names)
      | none => (cs, none)
    | _ => (cs, none)

/-! ## Named lines -/

/-- A name and what is said of it. -/
structure NamedForm where
  name : List Char
  value : Tail
deriving DecidableEq, Repr

/-- A non-empty name, then a mark that comes at once, then the value. -/
def namedForm? (line name : List Char) (mark : Char) (rest : List Char) : Option NamedForm :=
  if name.isEmpty then none
  else
    match rest with
    | [] => none
    | c :: rest => if c = mark then (tailOf? line rest).map (⟨name, ·⟩) else none

/-- The form of a line that sets a property: `name: value`. -/
def propertyForm? (line : List Char) : Option NamedForm :=
  namedForm? line (line.takeWhile isWordChar) ':' (line.dropWhile isWordChar)

/-- The form of a line that defines a variable: `@name = pattern`. -/
def variableForm? (line : List Char) : Option NamedForm :=
  match line with
  | '@' :: rest =>
    namedForm? line (rest.takeWhile isWordChar) '=' (trimLeft (rest.dropWhile isWordChar))
  | _ => none

/-- The form of a line of a palette: `A = colour`. -/
def paletteForm? (line : List Char) : Option NamedForm :=
  match line with
  | c :: rest => if c.isUpper then namedForm? line [c] '=' (trimLeft rest) else none
  | [] => none

end Rosette.Document
