import Rosette.Record.Value

/-!
# JSON documents

Documents as trees. Whole numbers are unbounded and apart from binary64 numbers, and an object is a table
of its members.
-/

namespace Rosette

/-- A JSON document. -/
inductive Json where
  | null
  | bool (b : Bool)
  | int (n : Int)
  | float (x : Binary64)
  | text (s : String)
  | list (items : List Json)
  | object (members : List (String × Json))
  /-- An object put together by hand, with keys of any sort. -/
  | keyed (members : List (Value × Json))
deriving Repr, Inhabited

/-- The kind of a document, as messages name it. -/
def Json.typeName : Json → String
  | .null => "NoneType"
  | .bool _ => "bool"
  | .int _ => "int"
  | .float _ => "float"
  | .text _ => "str"
  | .list _ => "list"
  | .object _ | .keyed _ => "dict"

end Rosette
