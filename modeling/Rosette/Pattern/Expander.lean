import Rosette.Pattern.Expansion

/-!
# Expanders

An expander counts the levels it is in while it goes through a pattern. The count is one number, which is raised where
a level is entered and lowered where it is left. A level is left also where something fails inside it, but one that is
refused was counted before and is never left. A call starts the count anew, so an expander can be called again after
any other call.
-/

namespace Rosette.Pattern

open Expansion

/-- An expander with its limit and the levels it counts. -/
structure Expander where
  limit : Int
  depth : Nat := 0

namespace Expander

/-- What is done while levels are counted. The count stays as it is where a fault is found. -/
abbrev Counting (α : Type) := ExceptT Expansion.Fault (StateM Nat) α

/-- What is done inside one more level. -/
def inLevel {α : Type} (limit : Int) (inside : Counting α) : Counting α := do
  modify (· + 1)
  if limit < ((← get : Nat) : Int) then throw (.tooDeep limit)
  try inside finally modify (· - 1)

/-- Whether a value that is no pattern is a level, as a sequence and a command are. -/
def isLevel : Value → Bool
  | .record .sequence (_ :: _) => true
  | .record .command (_ :: _ :: _) => true
  | _ => false

mutual

/-- The row of a pattern. -/
def rowOf (limit : Int) : Pattern → Counting (List Stroke)
  | .symbol char rotated count => symbolRow char rotated count
  | .sequence patterns count => inLevel limit do
    let rows ← rowsOf limit patterns
    counted count rows.flatten
  | .command name args _ => inLevel limit do
    if name = CommandRule.seq.name then do
      let n ← countArgument .seq args
      let rows ← rowsOfInit limit args
      counted n rows.flatten
    else if name = CommandRule.mir.name then
      if CommandRule.mir.accepts args.length then do
        let rows ← rowsOf limit args
        pure rows.flatten.reverse
      else throw (.arity .mir)
    else if name = CommandRule.space.name then do
      let n ← countArgument .space args
      let gap ← counted n [Stroke.spacer]
      let rows ← rowsOfInit limit args
      pure (gap.intercalate rows)
    else throw (.unknownCommand name)
  | .elementCount pattern count => do
    let row ← rowOf limit pattern
    tiled count row
  | .reference name => throw (.reference name)
  | .other v => do
    let row := valueRow limit (← get) v
    if isLevel v then inLevel limit row else row

/-- The rows of patterns, one by one. -/
def rowsOf (limit : Int) : List Pattern → Counting (List (List Stroke))
  | [] => pure []
  | p :: ps => do
    let row ← rowOf limit p
    let rows ← rowsOf limit ps
    pure (row :: rows)

/-- The rows of all patterns but the last. -/
def rowsOfInit (limit : Int) : List Pattern → Counting (List (List Stroke))
  | [] => pure []
  | [_] => pure []
  | p :: q :: ps => do
    let row ← rowOf limit p
    let rows ← rowsOfInit limit (q :: ps)
    pure (row :: rows)

end

/-- The row of a pattern, and the expander afterwards. -/
def call (e : Expander) (p : Pattern) : Except Expansion.Fault (List Stroke) × Expander :=
  let (row, depth) := (rowOf e.limit p).run.run 0
  (row, { e with depth })

/-- What an expander gives for patterns, called for one after the other. -/
def calls (e : Expander) : List Pattern → List (Except Expansion.Fault (List Stroke))
  | [] => []
  | p :: ps =>
    let (row, e) := e.call p
    row :: e.calls ps

end Expander

end Rosette.Pattern
