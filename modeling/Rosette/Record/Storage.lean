import Rosette.Binary64.Writing
import Rosette.Json.Basic
import Rosette.Record.Value
import Rosette.Text.Quoted

/-!
# Stored records

A record is stored as an object with its kind under `_type` and its fields under their names. Reading looks
for each field of the kind; fields that are left out get their defaults and members that are no fields are
passed over. The members of a table are user text and are never taken for fields of a record.
-/

namespace Rosette.Record

open Text

/-- Why a document holds no record. -/
inductive Fault where
  /-- An object does not say its kind. -/
  | noKind
  /-- No kind has the name; the name is given as messages show it. -/
  | unknownKind (name : String)
  /-- The kind is named by a list or an object. -/
  | kindNotAtomic (typeName : String)
  /-- Fields without a default are left out. -/
  | missing (kind : Kind) (fields : List String)
  /-- A table was to be made of a value that has no items. -/
  | noItems (typeName : String)
  /-- A table was to be made of a list with an item that has no items itself. -/
  | itemNotPair (index : Nat)
  /-- A table was to be made of a list with an item of the wrong length. -/
  | itemLength (index : Nat) (length : Nat)
  /-- The document itself is no object. -/
  | notRecord (typeName : String)
  /-- A value that is no record was to be stored. -/
  | notStorable (typeName : String)
deriving DecidableEq, Repr

/-- Names in a row, with `and` before the last. -/
def enumerate : List String → String
  | [] => ""
  | [a] => a
  | [a, b] => a ++ " and " ++ b
  | names => ", ".intercalate names.dropLast ++ ", and " ++ names.getLastD ""

/-- The message of a fault. -/
def Fault.message : Fault → String
  | .noKind => "Missing '_type' field in serialized node"
  | .unknownKind name => "Unknown node type: " ++ name
  | .kindNotAtomic typeName => "unhashable type: '" ++ typeName ++ "'"
  | .missing kind fields =>
    kind.name ++ ".__init__() missing " ++ toString fields.length ++ " required positional argument" ++
      (if fields.length = 1 then "" else "s") ++ ": " ++
      enumerate (fields.map fun f => "'" ++ f ++ "'")
  | .noItems typeName => "'" ++ typeName ++ "' object is not iterable"
  | .itemNotPair index =>
    "cannot convert dictionary update sequence element #" ++ toString index ++ " to a sequence"
  | .itemLength index length =>
    "dictionary update sequence element #" ++ toString index ++ " has length " ++ toString length ++
      "; 2 is required"
  | .notRecord typeName => "Expected a serialized node object, got " ++ typeName
  | .notStorable typeName => "Cannot serialize " ++ quoted typeName

/-! ## Writing -/

mutual

/-- The document of a value. -/
def toJson : Value → Json
  | .null => .null
  | .bool b => .bool b
  | .int n => .int n
  | .float x => .float x
  | .text s => .text s
  | .list items => .list (toJsonItems items)
  | .table entries => .object (toJsonEntries entries)
  | .pairs entries => .keyed (toJsonPairs entries)
  | .record kind fields =>
    .object (("_type", .text kind.name) :: toJsonFields (kind.fields.map (·.name)) fields)

/-- The documents of the items of a list. -/
def toJsonItems : List Value → List Json
  | [] => []
  | v :: vs => toJson v :: toJsonItems vs

/-- The documents of the values of a table. -/
def toJsonEntries : List (String × Value) → List (String × Json)
  | [] => []
  | (k, v) :: rest => (k, toJson v) :: toJsonEntries rest

/-- The documents of the values of a table with keys of any sort. -/
def toJsonPairs : List (Value × Value) → List (Value × Json)
  | [] => []
  | (k, v) :: rest => (k, toJson v) :: toJsonPairs rest

/-- The documents of fields under their names. -/
def toJsonFields : List String → List Value → List (String × Json)
  | name :: names, v :: vs => (name, toJson v) :: toJsonFields names vs
  | _, _ => []

end

/-- The document of a record; other values are not stored by themselves. -/
def write : Value → Except Fault Json
  | .record kind fields => .ok (toJson (.record kind fields))
  | v => .error (.notStorable v.typeName)

/-! ## Reading -/

/-- The kind that an object names. -/
def kindOf (members : List (String × Json)) : Except Fault Kind :=
  let find := fun (name shown : String) =>
    match Kind.ofName? name with
    | some kind => .ok kind
    | none => .error (.unknownKind shown)
  match members.lookup "_type" with
  | none => .error .noKind
  | some .null => .error .noKind
  | some (.text s) => find s (quoted s)
  | some (.int n) => .error (.unknownKind (toString n))
  | some (.float x) => .error (.unknownKind (String.ofList x.text))
  | some (.bool b) => .error (.unknownKind (if b then "True" else "False"))
  | some j => .error (.kindNotAtomic j.typeName)

/-- The key and the value of an item of a list that is to become a table. -/
def entryOf (index : Nat) : Value → Except Fault (Value × Value)
  | .list [k, v] => .ok (k, v)
  | .list items => .error (.itemLength index items.length)
  | .text s =>
    match s.toList with
    | [a, b] => .ok (.text (.singleton a), .text (.singleton b))
    | cs => .error (.itemLength index cs.length)
  | _ => .error (.itemNotPair index)

/-- The entries of a list of pairs, counted from `index`. -/
def entriesOf (index : Nat) : List Value → Except Fault (List (Value × Value))
  | [] => .ok []
  | v :: vs => do
    let e ← entryOf index v
    let es ← entriesOf (index + 1) vs
    .ok (e :: es)

/-- The table that a keyed field holds. -/
def tableOf : Value → Except Fault Value
  | .table entries => .ok (.table entries)
  | .pairs entries => .ok (.pairs entries)
  | .list items => (entriesOf 0 items).map .ofPairs
  | .text s =>
    match s.toList with
    | [] => .ok (.table [])
    | _ => .error (.itemLength 0 1)
  | v => .error (.noItems v.typeName)

/-- The value of a field: what was read under its name, or its default, or nothing. -/
def fieldValue (found : List (String × Except Fault Value)) (f : Field) :
    Except Fault (Option Value) :=
  match found.lookup f.name with
  | some (.error fault) => .error fault
  | some (.ok v) => .ok (some v)
  | none => .ok f.default?

/-- A keyed field made a table; a field whose default is nothing may hold nothing. -/
def settle (f : Field) (v : Value) : Except Fault Value :=
  if f.keyed then
    match f.default?, v with
    | some .null, .null => .ok .null
    | _, v => tableOf v
  else .ok v

/-- The record of a kind, from what was read under the names of its object. -/
def build (kind : Kind) (found : List (String × Except Fault Value)) : Except Fault Value := do
  let values ← kind.fields.mapM (fieldValue found)
  let absent := (kind.fields.zip values).filterMap fun (f, v) =>
    if v.isNone then some f.name else none
  if absent.isEmpty then
    let fields ← (kind.fields.zip values).mapM fun (f, v) => settle f (v.getD .null)
    .ok (.record kind fields)
  else .error (.missing kind absent)

/-- Whether a kind has a keyed field of a name. -/
def Kind.isKeyed (kind : Kind) (name : String) : Bool :=
  kind.fields.any fun f => f.keyed && f.name == name

mutual

/-- The value of a document: every object is a record. -/
def ofJson : Json → Except Fault Value
  | .null => .ok .null
  | .bool b => .ok (.bool b)
  | .int n => .ok (.int n)
  | .float x => .ok (.float x)
  | .text s => .ok (.text s)
  | .list items => (ofJsonItems items).map .list
  | .object members =>
    match kindOf members with
    | .error fault => .error fault
    | .ok kind => build kind (ofJsonFields kind members)
  | .keyed _ => .error .noKind

/-- The values of the items of a list. -/
def ofJsonItems : List Json → Except Fault (List Value)
  | [] => .ok []
  | j :: js => do
    let v ← ofJson j
    let vs ← ofJsonItems js
    .ok (v :: vs)

/-- The values of the members of a table. -/
def ofJsonEntries : List (String × Json) → Except Fault (List (String × Value))
  | [] => .ok []
  | (k, j) :: rest => do
    let v ← ofJson j
    let vs ← ofJsonEntries rest
    .ok ((k, v) :: vs)

/-- The values of the members of a table with keys of any sort. -/
def ofJsonPairs : List (Value × Json) → Except Fault (List (Value × Value))
  | [] => .ok []
  | (k, j) :: rest => do
    let v ← ofJson j
    let vs ← ofJsonPairs rest
    .ok ((k, v) :: vs)

/-- What the members of an object hold as fields of a kind: an object under a keyed field is a table. -/
def ofJsonFields (kind : Kind) : List (String × Json) → List (String × Except Fault Value)
  | [] => []
  | (k, .object members) :: rest =>
    (if kind.isKeyed k then (k, (ofJsonEntries members).map .table)
      else (k, ofJson (.object members))) :: ofJsonFields kind rest
  | (k, .keyed members) :: rest =>
    (if kind.isKeyed k then (k, (ofJsonPairs members).map .ofPairs)
      else (k, .error .noKind)) :: ofJsonFields kind rest
  | (k, j) :: rest => (k, ofJson j) :: ofJsonFields kind rest

end

/-- The record that a stored object holds. -/
def read (j : Json) : Except Fault Value :=
  match j with
  | .object _ => ofJson j
  | j => .error (.notRecord j.typeName)

end Rosette.Record
