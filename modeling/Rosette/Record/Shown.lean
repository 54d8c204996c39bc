import Rosette.Binary64.Writing
import Rosette.Numeral
import Rosette.Record.Value
import Rosette.Text.Call
import Rosette.Text.Quoted

/-!
# Values as text

A value is shown in messages as `shown` spells it: texts between quotes, lists in parentheses, records as
calls of their kinds. Where a value stands for a text it is written plainly: a text as it is, any other
value as it is shown. `truthy` says which values count as set.
-/

namespace Rosette.Value

/-- A list in parentheses; a comma tells a single item from a value in parentheses. -/
def listText : List (List Char) → List Char
  | [a] => '(' :: a ++ [',', ')']
  | parts => Text.call [] parts

/-- A part with its name and a mark between them. -/
def labelled (mark : List Char) (name part : List Char) : List Char := name ++ mark ++ part

/-- A table in braces. -/
def tableText (parts : List (List Char)) : List Char :=
  Text.call (Value.table []).typeName.toList
    ['\x7b' :: [',', ' '].intercalate parts ++ ['\x7d']]

mutual

/-- The value as messages show it. -/
def shown : Value → List Char
  | .null => "None".toList
  | .bool true => "True".toList
  | .bool false => "False".toList
  | .int n => (toString n).toList
  | .float x => x.text
  | .text s => (Text.quoted s).toList
  | .list items => listText (shownItems items)
  | .table entries => tableText (shownEntries entries)
  | .pairs entries => tableText (shownPairs entries)
  | .record kind fields =>
    Text.call kind.name.toList
      (List.zipWith (labelled ['=']) (kind.fields.map (·.name.toList)) (shownItems fields))

/-- The items of a list as messages show them. -/
def shownItems : List Value → List (List Char)
  | [] => []
  | v :: vs => shown v :: shownItems vs

/-- The entries of a table as messages show them. -/
def shownEntries : List (String × Value) → List (List Char)
  | [] => []
  | (k, v) :: rest => labelled [':', ' '] (Text.quoted k).toList (shown v) :: shownEntries rest

/-- The entries of a table with keys of any sort as messages show them. -/
def shownPairs : List (Value × Value) → List (List Char)
  | [] => []
  | (k, v) :: rest => labelled [':', ' '] (shown k) (shown v) :: shownPairs rest

end

/-- A text as it is, any other value as it is shown. -/
def plain : Value → List Char
  | .text s => s.toList
  | v => v.shown

/-- The plain text of a value; a number must have few enough digits. -/
def written : Value → Except Numeral.Fault (List Char)
  | .int n => Numeral.write n
  | v => .ok v.plain

/-- Whether a value counts as set: nothing, zero, and what is empty do not. -/
def truthy : Value → Bool
  | .null => false
  | .bool b => b
  | .int n => n != 0
  | .float x => !x.equal (.zero false)
  | .text s => !s.isEmpty
  | .list items => !items.isEmpty
  | .table entries => !entries.isEmpty
  | .pairs entries => !entries.isEmpty
  | .record _ _ => true

end Rosette.Value
