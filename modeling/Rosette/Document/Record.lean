import Rosette.Document.Basic
import Rosette.Misfit

/-!
# Documents as records

The records of a document and its parts, and the documents that records stand for. A record put together by
hand may hold any value in a field. Fields that are written as plain text are taken as their plain text, and
flags as whether they are set. Where rings, definitions or names of colours cannot be found, reading ends with
what was found before.
-/

namespace Rosette

/-! ## Writing records -/

/-- An optional value as a field. -/
def Value.ofOption {α : Type} (f : α → Value) : Option α → Value
  | none => .null
  | some a => f a

/-- The record of a ring. -/
def Ring.toValue (r : Ring) : Value :=
  .record .ringDefinition [r.radius.toValue, r.elementCount.toValue, r.pattern.toValue,
    .ofOption (fun names => .list (names.map .text)) r.colors]

/-- The record of a dot. -/
def Dot.toValue (d : Dot) : Value :=
  .record .dotDefinition
    [.ofOption Measure.toValue d.size, .ofOption .text d.color, .ofOption .bool d.visible]

/-- The record of a definition. -/
def Definition.toValue (v : Definition) : Value :=
  .record .variableDefinition [.text v.name, v.pattern.toValue]

/-- The record of a document. -/
def Document.toValue (d : Document) : Value :=
  .record .document [.list (d.rings.map Ring.toValue), .ofOption Dot.toValue d.dot,
    if d.guides then .record .guidesDefinition [] else .null,
    .list (d.definitions.map Definition.toValue),
    .ofOption (fun palette => .table (palette.map fun e => (e.1, e.2.toValue))) d.palette]

/-! ## Reading records -/

/-- What was read up to the first misfit, if there is one. -/
structure Found (α : Type) where
  value : α
  misfit? : Option Misfit := none

namespace Found

/-- Nothing but a misfit. -/
def refused {α : Type} (m : Misfit) : Found (Option α) := ⟨none, some m⟩

/-- What is found in the members of a list in order, up to the first misfit. -/
def all {α : Type} (f : Value → Found (Option α)) : List Value → Found (List α)
  | [] => ⟨[], none⟩
  | v :: vs =>
    let first := f v
    match first.misfit? with
    | some m => ⟨first.value.toList, some m⟩
    | none =>
      let rest := all f vs
      ⟨first.value.toList ++ rest.value, rest.misfit?⟩

end Found

namespace Value

/-- What is found in the members of a value. A text stands for its characters, and a value that is not set
for an empty list. -/
def members {α : Type} (f : Value → Found (Option α)) : Value → Found (List α)
  | .list vs => Found.all f vs
  | .text s => Found.all f (s.toList.map fun c => .text (.singleton c))
  | v => ⟨[], if v.truthy then some (.noMembers v.typeName) else none⟩

/-- The names of colours. A text stands for its characters, and a value that is not set for no names. -/
def colorNames : Value → Found (Option (List String))
  | .list vs => ⟨some (vs.map fun v => .ofList v.plain), Misfit.ofTexts? 0 vs⟩
  | .text s => ⟨some (s.toList.map String.singleton), none⟩
  | v => ⟨none, if v.truthy then some .noTexts else none⟩

/-- A field that may hold nothing. -/
def map? {α : Type} (f : Value → α) : Value → Option α
  | .null => none
  | v => some (f v)

end Value

/-- The ring that a value stands for. -/
def Ring.ofValue : Value → Found (Option Ring)
  | .record .ringDefinition [radius, count, pattern, colors] =>
    let names := colors.colorNames
    ⟨some ⟨.ofValue radius, .ofValue count, .ofValue pattern, names.value⟩, names.misfit?⟩
  | v => .refused (.noField v.typeName "radius")

/-- The dot that a value stands for, if it stands for one at all. -/
def Dot.ofValue : Value → Found (Option Dot)
  | .null => ⟨none, none⟩
  | .record .dotDefinition [size, color, visible] =>
    ⟨some ⟨size.map? .ofValue, color.map? fun v => .ofList v.plain, visible.map? (·.truthy)⟩, none⟩
  | v => .refused (.noField v.typeName "size")

/-- The definition that a value stands for. -/
def Definition.ofValue : Value → Found (Option Definition)
  | .record .variableDefinition [name, pattern] =>
    ⟨some ⟨.ofList name.plain, .ofValue pattern⟩, none⟩
  | .record kind _ =>
    let lacking := if kind.fields.any (·.name == "name") then "pattern" else "name"
    .refused (.noField kind.name lacking)
  | v => .refused (.noField v.typeName "name")

/-- The palette of a field, which is a table. -/
def Document.paletteOf : Value → Option (Table Color)
  | .table entries => some (entries.map fun e => (e.1, .ofValue e.2))
  | .pairs entries => some (entries.map fun e => (.ofList e.1.plain, .ofValue e.2))
  | _ => none

/-- Whether a field holds anything. -/
def Value.isPresent : Value → Bool
  | .null => false
  | _ => true

/-- The document that a value stands for. Its parts are read in the order in which they are written. -/
def Document.ofValue : Value → Found Document
  | .record .document [rings, dot, guides, definitions, palette] =>
    let rings := rings.members Ring.ofValue
    let dot := Dot.ofValue dot
    let definitions := definitions.members Definition.ofValue
    match rings.misfit?, dot.misfit?, definitions.misfit? with
    | some m, _, _ => ⟨{ rings := rings.value }, some m⟩
    | none, some m, _ => ⟨{ rings := rings.value }, some m⟩
    | none, none, m? =>
      let d : Document := ⟨rings.value, dot.value, guides.isPresent, definitions.value, none⟩
      match m? with
      | some m => ⟨d, some m⟩
      | none => ⟨{ d with palette := paletteOf palette }, none⟩
  | v => ⟨{}, some (.noField v.typeName "rings")⟩

end Rosette
