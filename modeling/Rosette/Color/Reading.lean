import Rosette.Binary64.Reading
import Rosette.Color.Basic
import Rosette.Numeral
import Rosette.Text.LetterCase
import Rosette.Text.Split
import Rosette.Text.Word

/-!
# Reading colours

A colour expression is a call: `rgb` and `hsb` take three whole numbers, any other name takes pairs of a key
and a number such as `baseHue: 180`. White space around the expression does not count. Of a pair with a
wrong value nothing is kept; of pairs with one key the last counts, at the place of the first.
-/

namespace Rosette.Color

open Text

/-- The white space and the run of digits in front of a text, and what follows; `none` without digits. -/
def splitCount? (cs : List Char) : Option (List Char × List Char) :=
  let cs := trimLeft cs
  match cs.takeWhile isDecimal with
  | [] => none
  | ds => some (ds, cs.dropWhile isDecimal)

/-- The three runs of digits in `(…,…,…)`. White space may stand behind the commas only. -/
def tripleForm? : List Char → Option (List Char × List Char × List Char)
  | '(' :: cs =>
    match cs.takeWhile isDecimal, cs.dropWhile isDecimal with
    | [], _ => none
    | a, ',' :: cs =>
      match splitCount? cs with
      | some (b, ',' :: cs) =>
        match splitCount? cs with
        | some (c, [')']) => some (a, b, c)
        | _ => none
      | _ => none
    | _, _ => none
  | _ => none

/-- A name and the text between the parentheses behind it, which has one line. -/
def callForm? (cs : List Char) : Option (List Char × List Char) :=
  match cs.takeWhile isWordChar, cs.dropWhile isWordChar with
  | [], _ => none
  | name, '(' :: rest =>
    if rest.getLast? = some ')' && !rest.dropLast.contains '\n' then some (name, rest.dropLast) else none
  | _, _ => none

/-- The key and the number of a pair, if it has both. -/
def pairOf? (cs : List Char) : Option (String × Measure) :=
  let key := trim (cs.takeWhile (· != ':'))
  let value := trim ((cs.dropWhile (· != ':')).drop 1)
  if key.isEmpty then none else (Binary64.leading? value).map fun x => (String.ofList key, .float x)

/-- The parameters in the text between the parentheses of a call. -/
def paramsOfText (cs : List Char) : Table Measure :=
  Table.ofList ((splitAtChar ',' cs).filterMap pairOf?)

/-- The names that take three whole numbers and nothing else. -/
def tripleNames : List String := ["rgb", "hsb"]

/-- The colour of a call of a generator. -/
def functionOf? (cs : List Char) : Option Color :=
  match callForm? cs with
  | none => none
  | some (name, params) =>
    let name := String.ofList (lower name)
    if tripleNames.contains name then none else some (.function name (paramsOfText params))

/-- A colour of three whole numbers. -/
def tripleColor (make : Int → Int → Int → Color) (t : List Char × List Char × List Char) :
    Except Numeral.Fault (Option Color) := do
  let a ← Numeral.read t.1
  let b ← Numeral.read t.2.1
  let c ← Numeral.read t.2.2
  .ok (some (make a b c))

/-- The colour that an expression writes, if it writes one. -/
def ofExpression (cs : List Char) : Except Numeral.Fault (Option Color) :=
  let cs := trim cs
  match cs with
  | 'r' :: 'g' :: 'b' :: rest =>
    match tripleForm? rest with
    | some t => tripleColor .rgb t
    | none => .ok (functionOf? cs)
  | 'h' :: 's' :: 'b' :: rest =>
    match tripleForm? rest with
    | some t => tripleColor .hsb t
    | none => .ok (functionOf? cs)
  | _ => .ok (functionOf? cs)

end Rosette.Color
