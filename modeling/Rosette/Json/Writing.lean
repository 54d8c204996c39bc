import Rosette.Binary64.Writing
import Rosette.Json.Basic
import Rosette.Numeral
import Rosette.Record.Order
import Rosette.Sorting
import Rosette.Text.Quoted

/-!
# Writing JSON

The members of an object are sorted by name, so equal documents have equal texts. Only printable ASCII
is written as it is; other characters get their 16-bit units in hexadecimal. Without an indent all stands
on one line; with one, each item has a line of its own, indented by that text once for each level.
Keys that are no texts are sorted as values and written as texts.
-/

namespace Rosette.Json

open Text

/-- The escape of a 16-bit unit. -/
def unitEscape (n : Nat) : List Char := '\\' :: 'u' :: hexDigits 4 n

/-- A character inside quotes. -/
def escape (c : Char) : List Char :=
  if c = '"' || c = '\\' then ['\\', c]
  else if c = '\n' then ['\\', 'n']
  else if c = '\r' then ['\\', 'r']
  else if c = '\t' then ['\\', 't']
  else if c = '\x08' then ['\\', 'b']
  else if c = '\x0c' then ['\\', 'f']
  else if ' ' ≤ c && c ≤ '~' then [c]
  else if c.toNat < 0x10000 then unitEscape c.toNat
  else
    -- two units: the high half of the code point above U+FFFF, then the low half
    let n := c.toNat - 0x10000
    unitEscape (0xd800 + n / 0x400) ++ unitEscape (0xdc00 + n % 0x400)

/-- A text between quotes. -/
def textLiteral (s : String) : List Char := '"' :: s.toList.flatMap escape ++ ['"']

/-- A binary64 number: its shortest text, where infinities and not-a-number have names. -/
def floatLiteral : Binary64 → List Char
  | .infinite false => "Infinity".toList
  | .infinite true => "-Infinity".toList
  | .nan => "NaN".toList
  | x => x.text

/-- An indent of so many spaces; of none, if the number is below zero. -/
def spaces (n : Int) : List Char := List.replicate n.toNat ' '

/-- A line break and the indent of a level, if there is an indent. -/
def lineBreak (indent : Option (List Char)) (level : Nat) : List Char :=
  match indent with
  | none => []
  | some unit => '\n' :: (List.replicate level unit).flatten

/-- Items between brackets. -/
def enclose (indent : Option (List Char)) (level : Nat) (left right : Char) (items : List (List Char)) :
    List Char :=
  if items.isEmpty then [left, right]
  else
    let separator := if indent.isSome then [','] else [',', ' ']
    let gap := lineBreak indent (level + 1)
    left :: gap ++ (separator ++ gap).intercalate items ++ lineBreak indent level ++ [right]

/-- Members in the order of their names. -/
def sortMembers {α : Type} (members : List (String × α)) : List (String × α) :=
  members.mergeSort fun a b => decide (a.1 ≤ b.1)

namespace Writing

/-- Why a document has no text. -/
inductive Fault where
  | numeral (fault : Numeral.Fault)
  | misfit (misfit : Misfit)
deriving DecidableEq, Repr

def Fault.message : Fault → String
  | .numeral f => f.message
  | .misfit m => m.message

end Writing

/-- A member of an object from its name and the text of its value. -/
def memberText (name : String) (text : Except Writing.Fault (List Char)) : Except Writing.Fault (List Char) :=
  text.map fun t => textLiteral name ++ ':' :: ' ' :: t

/-- A key as a name. -/
def keyName : Value → Except Writing.Fault (List Char)
  | .text s => .ok s.toList
  | .null => .ok "null".toList
  | .bool b => .ok (if b then "true".toList else "false".toList)
  | .int n => (Numeral.write n).mapError .numeral
  | .float x => .ok (floatLiteral x)
  | v => .error (.misfit (.notKey v.typeName))

/-- A member of an object with keys of any sort. -/
def keyedText (m : Value × Except Writing.Fault (List Char)) : Except Writing.Fault (List Char) := do
  let name ← keyName m.1
  memberText (.ofList name) m.2

mutual

/-- The text of a document at a level. The members of an object are written in their order, so the first
fault of that order counts. -/
def renderAt (indent : Option (List Char)) (level : Nat) : Json → Except Writing.Fault (List Char)
  | .null => .ok "null".toList
  | .bool b => .ok (if b then "true".toList else "false".toList)
  | .int n => (Numeral.write n).mapError .numeral
  | .float x => .ok (floatLiteral x)
  | .text s => .ok (textLiteral s)
  | .list items => (renderItems indent (level + 1) items).map (enclose indent level '[' ']')
  | .object members =>
    let texts := (sortMembers (renderMembers indent (level + 1) members)).mapM fun m =>
      memberText m.1 m.2
    texts.map (enclose indent level '\x7b' '\x7d')
  | .keyed members => do
    let sorted ← (Sorting.sort (fun a b => Value.less a.1 b.1)
      (renderKeyed indent (level + 1) members)).mapError .misfit
    let texts ← sorted.mapM keyedText
    .ok (enclose indent level '\x7b' '\x7d' texts)

/-- The texts of the items of a list. -/
def renderItems (indent : Option (List Char)) (level : Nat) : List Json → Except Writing.Fault (List (List Char))
  | [] => .ok []
  | j :: js => do
    let t ← renderAt indent level j
    let ts ← renderItems indent level js
    .ok (t :: ts)

/-- The texts of the values of an object under their names. -/
def renderMembers (indent : Option (List Char)) (level : Nat) :
    List (String × Json) → List (String × Except Writing.Fault (List Char))
  | [] => []
  | (k, j) :: ms => (k, renderAt indent level j) :: renderMembers indent level ms

/-- The texts of the values of an object under their keys. -/
def renderKeyed (indent : Option (List Char)) (level : Nat) :
    List (Value × Json) → List (Value × Except Writing.Fault (List Char))
  | [] => []
  | (k, j) :: ms => (k, renderAt indent level j) :: renderKeyed indent level ms

end

/-- The text of a document. -/
def render (indent : Option (List Char)) (j : Json) : Except Writing.Fault String :=
  (renderAt indent 0 j).map String.ofList

end Rosette.Json
