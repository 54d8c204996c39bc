import Rosette.Count
import Rosette.Stroke.Basic

/-!
# Patterns

The tree of a pattern, before it is unrolled to a row of strokes.
-/

namespace Rosette

/-- A pattern. Trees put together by hand may have counts that no text writes, and may hold any value
where a pattern belongs. -/
inductive Pattern where
  /-- A stroke letter, or another word that has no meaning yet, with its repeat count. -/
  | symbol (char : String) (rotated : Bool) (count : Count)
  /-- Patterns one after the other. -/
  | sequence (patterns : List Pattern) (count : Count)
  /-- A named operation on patterns. -/
  | command (name : String) (args : List Pattern) (count : Count)
  /-- A pattern tiled to a number of strokes. -/
  | elementCount (pattern : Pattern) (count : Count)
  /-- The name of a pattern that is defined elsewhere. -/
  | reference (name : String)
  /-- A value that is no pattern. -/
  | other (value : Value)
deriving Repr, Inhabited

namespace Pattern

/-- The pattern of a ring that is drawn as one band. -/
def solid : Pattern := .symbol Stroke.solidMark false .absent

/-- The letter of a symbol, whether it is rotated, and its count. In a symbol put together by hand, whatever
says whether it is rotated says so by being set. -/
def symbol? : Pattern → Option (String × Bool × Count)
  | .symbol char rotated count => some (char, rotated, count)
  | .other (.record .symbol [.text char, rotated, n]) => some (char, rotated.truthy, .ofValue n)
  | _ => none

/-- Whether the pattern is a single symbol that marks a ring as one band. -/
def isSolid (p : Pattern) : Bool :=
  match p.symbol? with
  | some (char, _, _) => char == Stroke.solidMark
  | none => false

/-- Whether the pattern is a sequence. -/
def isSequence : Pattern → Bool
  | .sequence _ _ => true
  | _ => false

/-- The kind of a pattern, as messages name it. -/
def typeName : Pattern → String
  | .symbol _ _ _ => Record.Kind.symbol.name
  | .sequence _ _ => Record.Kind.sequence.name
  | .command _ _ _ => Record.Kind.command.name
  | .elementCount _ _ => Record.Kind.elementCount.name
  | .reference _ => Record.Kind.variableReference.name
  | .other v => v.typeName

/-! ## Patterns as records -/

mutual

/-- The record of a pattern. -/
def toValue : Pattern → Value
  | .symbol char rotated count => .record .symbol [.text char, .bool rotated, count.toValue]
  | .sequence patterns count => .record .sequence [.list (toValues patterns), count.toValue]
  | .command name args count => .record .command [.text name, .list (toValues args), count.toValue]
  | .elementCount pattern count => .record .elementCount [toValue pattern, count.toValue]
  | .reference name => .record .variableReference [.text name]
  | .other v => v

/-- The records of patterns in order. -/
def toValues : List Pattern → List Value
  | [] => []
  | p :: ps => toValue p :: toValues ps

end

/-- The characters of a text where patterns belong; none of them is one. -/
def ofChars (s : String) : List Pattern := s.toList.map fun c => .other (.text (.singleton c))

mutual

/-- The pattern that a value stands for. A record whose fields cannot be read as those of a pattern stands
for itself, and so does any other value. A name is taken as its plain text. -/
def ofValue : Value → Pattern
  | .record .symbol [.text char, .bool rotated, n] => .symbol char rotated (.ofValue n)
  | .record .sequence [.list patterns, n] => .sequence (ofValues patterns) (.ofValue n)
  | .record .sequence [.text s, n] => .sequence (ofChars s) (.ofValue n)
  | .record .command [name, .list args, n] =>
    .command (.ofList name.plain) (ofValues args) (.ofValue n)
  | .record .command [name, .text s, n] => .command (.ofList name.plain) (ofChars s) (.ofValue n)
  | .record .elementCount [pattern, n] => .elementCount (ofValue pattern) (.ofValue n)
  | .record .variableReference [name] => .reference (.ofList name.plain)
  | v => .other v

/-- The patterns of records in order. -/
def ofValues : List Value → List Pattern
  | [] => []
  | v :: vs => ofValue v :: ofValues vs

end

end Pattern

end Rosette
