import Rosette.Binary64.Basic
import Rosette.Table

/-!
# Records

Every node of a pattern, a colour or a document can be looked at as a record: its kind and the values of its
fields, in the order in which `Kind.fields` names them. A field may hold any value, so that what stands in
the place of a node without being one has a form too.
-/

namespace Rosette

namespace Record

/-- The kinds of records. -/
inductive Kind where
  | symbol
  | sequence
  | command
  | elementCount
  | variableReference
  | grammarItem
  | colorFunction
  | colorRgb
  | colorHsb
  | colorReference
  | document
  | ringDefinition
  | dotDefinition
  | guidesDefinition
  | variableDefinition
deriving DecidableEq, Repr, Inhabited

end Record

/-- A value of a record's field. -/
inductive Value where
  | null
  | bool (b : Bool)
  | int (n : Int)
  | float (x : Binary64)
  | text (s : String)
  | list (items : List Value)
  /-- Named values in order of arrival. -/
  | table (entries : List (String × Value))
  /-- Values under keys of which one at least is no text, in order of arrival. -/
  | pairs (entries : List (Value × Value))
  | record (kind : Record.Kind) (fields : List Value)
deriving Repr, Inhabited

namespace Record

namespace Kind

/-- All kinds. -/
def all : List Kind :=
  [.symbol, .sequence, .command, .elementCount, .variableReference, .grammarItem, .colorFunction,
   .colorRgb, .colorHsb, .colorReference, .document, .ringDefinition, .dotDefinition,
   .guidesDefinition, .variableDefinition]

/-- The name of a kind in messages and in stored records. -/
def name : Kind → String
  | .symbol => "Symbol"
  | .sequence => "Sequence"
  | .command => "Command"
  | .elementCount => "ElementCount"
  | .variableReference => "VariableReference"
  | .grammarItem => "GrammarItem"
  | .colorFunction => "ColorFunction"
  | .colorRgb => "ColorRgb"
  | .colorHsb => "ColorHsb"
  | .colorReference => "ColorReference"
  | .document => "Document"
  | .ringDefinition => "RingDefinition"
  | .dotDefinition => "DotDefinition"
  | .guidesDefinition => "GuidesDefinition"
  | .variableDefinition => "VariableDefinition"

/-- The kind of a name. -/
def ofName? (name : String) : Option Kind := all.find? (·.name == name)

/-- The word by which callers tell patterns and colours apart; other kinds have none. -/
def discriminator? : Kind → Option String
  | .symbol => some "symbol"
  | .sequence => some "sequence"
  | .command => some "command"
  | .elementCount => some "elementCount"
  | .variableReference => some "variableReference"
  | .colorFunction => some "colorFunction"
  | .colorRgb => some "colorRgb"
  | .colorHsb => some "colorHsb"
  | .colorReference => some "colorReference"
  | _ => none

end Kind

/-- A field of a kind: its name, what it holds when it is left out (`none` if it must be there), and
whether it holds a table of named values. -/
structure Field where
  name : String
  default? : Option Value := none
  keyed : Bool := false

namespace Field

/-- A field that must be there. -/
def required (name : String) : Field := { name }

/-- A field that may be left out. -/
def optional (name : String) (default : Value) : Field := { name, default? := some default }

end Field

/-- The fields of a kind in order. -/
def Kind.fields : Kind → List Field
  | .symbol => [.required "char", .optional "rotated" (.bool false), .optional "count" .null]
  | .sequence => [.required "patterns", .optional "count" .null]
  | .command => [.required "name", .required "args", .optional "count" .null]
  | .elementCount => [.required "pattern", .required "count"]
  | .variableReference => [.required "name"]
  | .grammarItem => [.required "char", .optional "rotated" (.bool false)]
  | .colorFunction => [.required "name", { name := "params", keyed := true }]
  | .colorRgb => [.required "r", .required "g", .required "b"]
  | .colorHsb => [.required "h", .required "s", .required "b"]
  | .colorReference => [.required "name"]
  | .document =>
    [.optional "rings" (.list []), .optional "dot" .null, .optional "guides" .null,
     .optional "variables" (.list []), { name := "palette", default? := some .null, keyed := true }]
  | .ringDefinition =>
    [.required "radius", .required "element_count", .required "pattern", .optional "colors" .null]
  | .dotDefinition =>
    [.optional "size" .null, .optional "color" .null, .optional "visible" .null]
  | .guidesDefinition => []
  | .variableDefinition => [.required "name", .required "pattern"]

end Record

namespace Value

/-- The kind of a value, as messages name it. -/
def typeName : Value → String
  | .null => "NoneType"
  | .bool _ => "bool"
  | .int _ => "int"
  | .float _ => "float"
  | .text _ => "str"
  | .list _ => "tuple"
  | .table _ | .pairs _ => "mappingproxy"
  | .record k _ => k.name

/-- A value that counts as a number: truth values count as 0 and 1. -/
def number? : Value → Option (Int ⊕ Binary64)
  | .bool b => some (.inl (if b then 1 else 0))
  | .int n => some (.inl n)
  | .float x => some (.inr x)
  | _ => none

/-- Whether a binary64 number is a given whole number. -/
def equalsInt : Binary64 → Int → Bool
  | .finite negative m e, n =>
    m * Nat.pow 2 e.toNat == n.natAbs * Nat.pow 2 (-e).toNat && (n == 0 || negative == decide (n < 0))
  | _, _ => false

/-- Whether two numbers are equal, of either sort. -/
def sameNumber : Int ⊕ Binary64 → Int ⊕ Binary64 → Bool
  | .inl m, .inl n => m == n
  | .inl n, .inr x => equalsInt x n
  | .inr x, .inl n => equalsInt x n
  | .inr x, .inr y => x.equal y

mutual

/-- Whether two values are equal. Tables are equal if they hold equal values under the same names, in any
order. -/
def same : Value → Value → Bool
  | .null, .null => true
  | .text s, .text t => s == t
  | .list as, .list bs => sameItems as bs
  | .table as, .table bs => as.length == bs.length && sameEntries as bs
  | .pairs as, .pairs bs => as.length == bs.length && samePairs as bs
  | .record k as, .record l bs => k == l && sameItems as bs
  | a, b =>
    match a.number?, b.number? with
    | some m, some n => sameNumber m n
    | _, _ => false

/-- Whether two lists hold equal values in order. -/
def sameItems : List Value → List Value → Bool
  | [], [] => true
  | a :: as, b :: bs => same a b && sameItems as bs
  | _, _ => false

/-- Whether each name of the first table has an equal value in the second. -/
def sameEntries : List (String × Value) → List (String × Value) → Bool
  | [], _ => true
  | (k, a) :: as, bs =>
    (match bs.lookup k with
      | some b => same a b
      | none => false) && sameEntries as bs

/-- Whether each key of the first list has an equal value in the second. -/
def samePairs : List (Value × Value) → List (Value × Value) → Bool
  | [], _ => true
  | (k, a) :: as, bs =>
    (match bs.find? fun e => same k e.1 with
      | some e => same a e.2
      | none => false) && samePairs as bs

end

/-! ## Keys of any sort -/

/-- The list with a value written to a key. A key that is equal to one present keeps that one and its place. -/
def putPair : List (Value × Value) → Value × Value → List (Value × Value)
  | [], e => [e]
  | e' :: rest, e => if same e'.1 e.1 then (e'.1, e.2) :: rest else e' :: putPair rest e

/-- The entries, if every key is a text. -/
def textEntries? : List (Value × Value) → Option (List (String × Value))
  | [] => some []
  | (.text k, v) :: rest => (textEntries? rest).map ((k, v) :: ·)
  | _ => none

/-- The table that comes of writing all pairs in order. -/
def ofPairs (entries : List (Value × Value)) : Value :=
  match textEntries? entries with
  | some es => .table (Table.ofList es)
  | none => .pairs (entries.foldl putPair [])

end Value

end Rosette
