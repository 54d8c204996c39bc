/-!
# The log

Runs leave entries beside their answers: what was given up, and what was passed over.
-/

namespace Rosette.Log

/-- How much an entry matters. -/
inductive Level where
  | debug
  | warning
deriving DecidableEq, Repr

def Level.name : Level → String
  | .debug => "DEBUG"
  | .warning => "WARNING"

/-- One line of the log. -/
structure Entry where
  level : Level
  /-- Which part of the program speaks. -/
  channel : String
  text : String
deriving DecidableEq, Repr

/-- The name that all channels stand under. -/
def family : String := "wheelpat"

/-- The full name of a channel: a name outside the family is put under it. -/
def channelName (name : String) : String :=
  if name = family || (family ++ ".").toList.isPrefixOf name.toList then name
  else family ++ "." ++ name

end Rosette.Log
