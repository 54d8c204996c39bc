import Rosette.Misfit
import Rosette.Pattern.Basic
import Rosette.Pattern.Command
import Rosette.Repetition
import Rosette.Text.Quoted

/-!
# From patterns to rows of strokes

`expandAt` unrolls every repeat, command and element count of a pattern. Sequences and commands count as
levels of nesting; one level more than the limit is a fault. Where several things are wrong the fault
is the first one met on the way from left to right.
-/

namespace Rosette.Pattern

namespace Expansion

/-- Why a pattern has no row of strokes. -/
inductive Fault where
  /-- The mark of a solid ring stands for no strokes. -/
  | solid
  /-- A symbol is no stroke letter; it is given as messages show it. -/
  | unknownSymbol (shown : String)
  | unknownCommand (name : String)
  /-- A command has too few or too many arguments. -/
  | arity (rule : CommandRule)
  /-- The last argument of a counted command is no count above or below zero. -/
  | noCount (rule : CommandRule)
  /-- References are not replaced by what they refer to. -/
  | reference (name : String)
  /-- A value that is no pattern. -/
  | notPattern (typeName : String)
  | tooDeep (limit : Int)
  /-- A repeat count does not fit into a word. -/
  | overflow
  | misfit (misfit : Misfit)
deriving DecidableEq, Repr

def Fault.message : Fault → String
  | .solid => "Solid ring marker '-' cannot be expanded into strokes"
  | .unknownSymbol shown => "Unknown symbol: " ++ shown
  | .unknownCommand name => "Unknown command: " ++ name
  | .arity rule => rule.arityMessage
  | .noCount rule => rule.name ++ " command requires a count as the last argument"
  | .reference name => "Variable references are not supported by the expander: @" ++ name
  | .notPattern typeName => "Unknown node type: " ++ typeName
  | .tooDeep limit => "Pattern nesting exceeds maximum depth of " ++ toString limit
  | .overflow => "cannot fit 'int' into an index-sized integer"
  | .misfit m => m.message

/-- Whether a fault is reported as one of the pattern. -/
def Fault.isReported : Fault → Bool
  | .overflow | .misfit _ => false
  | _ => true

/-- A row `n` times over. -/
def repeated (n : Int) (row : List Stroke) : Except Fault (List Stroke) :=
  match Repetition.copies? n row with
  | none => .error .overflow
  | some row => .ok row

/-- A row once, or as often as its count says. -/
def counted (count : Count) (row : List Stroke) : Except Fault (List Stroke) :=
  match count with
  | .absent => .ok row
  | .times n => repeated n row
  | .other v =>
    match count.number? with
    | some n => repeated n row
    | none => .error (.misfit (.notTimes v.typeName))

/-- A row over and over, cut to as many strokes as a count says. -/
def tiled (count : Count) (row : List Stroke) : Except Fault (List Stroke) :=
  match count.number? with
  | some n =>
    match Repetition.tile? n row with
    | none => .error .overflow
    | some row => .ok row
  | none => if row.isEmpty then .ok [] else .error (.misfit (.ofTiling count.toValue))

/-- The row of a symbol. -/
def symbolRow (char : String) (rotated : Bool) (count : Count) : Except Fault (List Stroke) :=
  if char = Stroke.solidMark then .error .solid
  else if Stroke.alphabet.contains char then counted count [⟨char, rotated⟩]
  else .error (.unknownSymbol (Text.quoted char))

/-- The count that an argument gives: its own, or 1 for a stroke letter without one. -/
def countOf (p : Pattern) : Count :=
  match p.symbol? with
  | some (char, _, .absent) => if Stroke.alphabet.contains char then .times 1 else .absent
  | some (_, _, count) => count
  | none =>
    match p with
    | .other (.record .symbol [_, _, n]) => .ofValue n
    | _ => .absent

/-- The count at the end of the arguments of a command. -/
def countArgument (rule : CommandRule) (args : List Pattern) : Except Fault Count :=
  if rule.accepts args.length then
    let count := (args.getLast?.map countOf).getD .absent
    if count.isSet then .ok count else .error (.noCount rule)
  else .error (.arity rule)

/-- What is wrong with a value that is no pattern and no symbol, and stands inside `depth` levels. -/
def valueFault (limit : Int) (depth : Nat) : Value → Fault
  | .record .symbol (char :: _) => .unknownSymbol (.ofList char.shown)
  | .record .sequence (patterns :: _) =>
    if limit < (depth : Int) + 1 then .tooDeep limit else .misfit (.noMembers patterns.typeName)
  | .record .command (name :: args :: _) =>
    let name : String := .ofList name.plain
    if limit < (depth : Int) + 1 then .tooDeep limit
    else if CommandRule.all.any (·.name == name) then .misfit (.noLength args.typeName)
    else .unknownCommand name
  | v => .notPattern v.typeName

/-- The row of a value that stands inside `depth` levels: a symbol may have one. -/
def valueRow (limit : Int) (depth : Nat) (v : Value) : Except Fault (List Stroke) :=
  match (Pattern.other v).symbol? with
  | some (char, rotated, count) => symbolRow char rotated count
  | none => .error (valueFault limit depth v)

end Expansion

open Expansion

mutual

/-- The row of a pattern that stands inside `depth` levels. -/
def expandAt (limit : Int) (depth : Nat) : Pattern → Except Fault (List Stroke)
  | .symbol char rotated count => symbolRow char rotated count
  | .sequence patterns count =>
    if limit < (depth : Int) + 1 then .error (.tooDeep limit)
    else do
      let rows ← expandEach limit (depth + 1) patterns
      counted count rows.flatten
  | .command name args _ =>
    if limit < (depth : Int) + 1 then .error (.tooDeep limit)
    else if name = CommandRule.seq.name then do
      let n ← countArgument .seq args
      let rows ← expandInit limit (depth + 1) args
      counted n rows.flatten
    else if name = CommandRule.mir.name then
      if CommandRule.mir.accepts args.length then do
        -- the rule lets one argument through
        let rows ← expandEach limit (depth + 1) args
        .ok rows.flatten.reverse
      else .error (.arity .mir)
    else if name = CommandRule.space.name then do
      let n ← countArgument .space args
      let gap ← counted n [Stroke.spacer]
      let rows ← expandInit limit (depth + 1) args
      .ok (gap.intercalate rows)
    else .error (.unknownCommand name)
  | .elementCount pattern count => do
    let row ← expandAt limit depth pattern
    tiled count row
  | .reference name => .error (.reference name)
  | .other v => valueRow limit depth v

/-- The rows of patterns, one by one. -/
def expandEach (limit : Int) (depth : Nat) : List Pattern → Except Fault (List (List Stroke))
  | [] => .ok []
  | p :: ps => do
    let row ← expandAt limit depth p
    let rows ← expandEach limit depth ps
    .ok (row :: rows)

/-- The rows of all patterns but the last. -/
def expandInit (limit : Int) (depth : Nat) : List Pattern → Except Fault (List (List Stroke))
  | [] => .ok []
  | [_] => .ok []
  | p :: q :: ps => do
    let row ← expandAt limit depth p
    let rows ← expandInit limit depth (q :: ps)
    .ok (row :: rows)

end

/-- The row of a pattern under a limit on nesting. -/
def expand (limit : Int) (p : Pattern) : Except Fault (List Stroke) := expandAt limit 0 p

end Rosette.Pattern
