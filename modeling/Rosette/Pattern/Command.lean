import Rosette.Text.LetterCase

/-!
# Pattern commands

What the commands take: `seq` repeats patterns, `mir` reverses one, and `space` puts gaps between patterns.
The last argument of `seq` and `space` is a count.
-/

namespace Rosette.Pattern

/-- The rule of a command. -/
structure CommandRule where
  name : String
  /-- The least number of arguments, with the count. -/
  minArgs : Nat
  /-- The greatest number of arguments, if there is one. -/
  maxArgs? : Option Nat
  /-- Whether the last argument is a count. -/
  counted : Bool
  description : String
  /-- A call and its row of strokes. -/
  sample : String
deriving DecidableEq, Repr

namespace CommandRule

def seq : CommandRule where
  name := "seq"
  minArgs := 2
  maxArgs? := none
  counted := true
  description := "Sequence patterns together, repeat n times"
  sample := "seq($d, $h, $l, 3) -> dhldhldhl"

def mir : CommandRule where
  name := "mir"
  minArgs := 1
  maxArgs? := some 1
  counted := false
  description := "Mirror (reverse) a pattern"
  sample := "mir($dhlv) -> vlhd"

def space : CommandRule where
  name := "space"
  minArgs := 2
  maxArgs? := none
  counted := true
  description := "Insert n spacer strokes between patterns"
  sample := "space($d, $h, $l, 2) -> dxxhxxl"

/-- All commands. -/
def all : List CommandRule := [seq, mir, space]

/-- The command of a name, in capital or small letters. -/
def ofName? (name : String) : Option CommandRule :=
  let folded := String.ofList (Text.foldAscii name.toList)
  all.find? (·.name == folded)

/-- Whether a call may have so many arguments. -/
def accepts (r : CommandRule) (n : Int) : Bool :=
  r.minArgs ≤ n && r.maxArgs?.all fun m => n ≤ m

/-- What is said about a call with a wrong number of arguments. -/
def arityMessage (r : CommandRule) : String :=
  if r.maxArgs? = some r.minArgs then
    r.name ++ " command requires exactly " ++ toString r.minArgs ++
      (if r.minArgs = 1 then " argument" else " arguments")
  else r.name ++ " command requires at least " ++ toString r.minArgs ++ " arguments"

end CommandRule

end Rosette.Pattern
