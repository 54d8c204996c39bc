import Rosette.Numeral
import Rosette.Record.Storage

/-!
# Typed records

What the fields of each kind hold. Only two fields hold tables, and no list does, so it can be said of a field but not
of a value that it is a table: `FieldTy` is apart from `Ty`.
-/

namespace Rosette.Record

/-- The types of values that are no tables. -/
inductive Ty where
  | text
  | bool
  | int
  | float
  /-- A record of one of the kinds. -/
  | node (kinds : List Kind)
  | listOf (t : Ty)
  /-- The value may be nothing. -/
  | optional (t : Ty)

/-- The types of fields: a value, or a table of values by name. -/
inductive FieldTy where
  | value (t : Ty)
  | table (t : Ty)
  /-- The table may be nothing. -/
  | optionalTable (t : Ty)

/-- A pattern of any kind. -/
def Ty.pattern : Ty := .node [.symbol, .sequence, .command, .elementCount, .variableReference]

/-- A colour of any kind. -/
def Ty.color : Ty := .node [.colorFunction, .colorRgb, .colorHsb, .colorReference]

/-- The types of the fields of a kind in order. A stroke letter counts as any other text. -/
def Kind.types : Kind → List FieldTy
  | .symbol => [.value .text, .value .bool, .value (.optional .int)]
  | .sequence => [.value (.listOf .pattern), .value (.optional .int)]
  | .command => [.value .text, .value (.listOf .pattern), .value (.optional .int)]
  | .elementCount => [.value .pattern, .value .int]
  | .variableReference => [.value .text]
  | .grammarItem => [.value .text, .value .bool]
  | .colorFunction => [.value .text, .table .float]
  | .colorRgb => [.value .int, .value .int, .value .int]
  | .colorHsb => [.value .int, .value .int, .value .int]
  | .colorReference => [.value .text]
  | .document =>
    [.value (.listOf (.node [.ringDefinition])), .value (.optional (.node [.dotDefinition])),
     .value (.optional (.node [.guidesDefinition])), .value (.listOf (.node [.variableDefinition])),
     .optionalTable .color]
  | .ringDefinition => [.value .float, .value .int, .value .pattern, .value (.optional (.listOf .text))]
  | .dotDefinition => [.value (.optional .float), .value (.optional .text), .value (.optional .bool)]
  | .guidesDefinition => []
  | .variableDefinition => [.value .text, .value .pattern]

mutual

/-- A value of a type. A truth value is a whole number too, and a whole number does for a binary64 number. -/
inductive HasType : Value → Ty → Prop where
  | text (s : String) : HasType (.text s) .text
  | bool (b : Bool) : HasType (.bool b) .bool
  | boolInt (b : Bool) : HasType (.bool b) .int
  | int {n : Int} (h : Numeral.fits n = true) : HasType (.int n) .int
  | intFloat {v : Value} (h : HasType v .int) : HasType v .float
  | float {x : Binary64} (ne : x ≠ .nan) (canonical : x.Canonical) : HasType (.float x) .float
  | node {kind : Kind} {kinds : List Kind} {vs : List Value} (mem : kind ∈ kinds) (fields : HasFields vs kind.types) :
      HasType (.record kind vs) (.node kinds)
  | list {items : List Value} {t : Ty} (each : ∀ v ∈ items, HasType v t) : HasType (.list items) (.listOf t)
  | nothing (t : Ty) : HasType .null (.optional t)
  | something {v : Value} {t : Ty} (h : HasType v t) : HasType v (.optional t)

/-- The values of fields of the types, in order. The names of a table are any texts. -/
inductive HasFields : List Value → List FieldTy → Prop where
  | nil : HasFields [] []
  | value {v : Value} {t : Ty} {vs : List Value} {ts : List FieldTy} (h : HasType v t) (rest : HasFields vs ts) :
      HasFields (v :: vs) (.value t :: ts)
  | table {entries : List (String × Value)} {t : Ty} {ft : FieldTy} {vs : List Value} {ts : List FieldTy}
      (ft_eq : ft = .table t ∨ ft = .optionalTable t) (nodup : (entries.map Prod.fst).Nodup)
      (each : ∀ e ∈ entries, HasType e.2 t) (rest : HasFields vs ts) : HasFields (.table entries :: vs) (ft :: ts)
  | noTable {t : Ty} {vs : List Value} {ts : List FieldTy} (rest : HasFields vs ts) :
      HasFields (.null :: vs) (.optionalTable t :: ts)

end

/-- A well-typed record of any kind. -/
def IsNode (v : Value) : Prop := HasType v (.node Kind.all)

end Rosette.Record
