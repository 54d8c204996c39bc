import Rosette.Diagnostic
import Rosette.Numeral
import Rosette.Token.Basic

/-!
# What can be wrong with a pattern text

The causes for which a list of tokens is refused, each with the token it is found at. The wording is in
`Cause.message` and `Cause.suggestion?` only.
-/

namespace Rosette.Pattern

/-- Why a list of tokens is refused. -/
inductive Cause where
  /-- No pattern begins with the token. -/
  | unexpected (token : Token)
  /-- A token of one kind had to stand where another stands. -/
  | expected (wanted found : Token.Kind)
  | emptySequence
  /-- Neither a comma nor the end of the call follows an argument. -/
  | missingComma
  /-- The token is no name of a variable. -/
  | badName (token : Token)
  /-- No argument begins with the token. -/
  | badArgument (token : Token)
  /-- The token follows a complete pattern. -/
  | trailing (token : Token)
  /-- Sequences and commands nest deeper than allowed. -/
  | tooDeep (limit : Int)
deriving DecidableEq, Repr

namespace Cause

def message : Cause → String
  | .unexpected t => "Unexpected token: " ++ t.describe
  | .expected wanted found => "Expected " ++ wanted.name ++ ", got " ++ found.name
  | .emptySequence => "Empty sequence after $"
  | .missingComma => "Expected comma or closing parenthesis"
  | .badName t => "Expected variable name after @, got " ++ t.describe
  | .badArgument t => "Unexpected token in argument: " ++ t.describe
  | .trailing t => "Unexpected trailing input: " ++ t.describe
  | .tooDeep limit => "Pattern nesting exceeds maximum depth of " ++ toString limit

/-- The hint that goes with a cause, if there is one. -/
def suggestion? : Cause → Option String
  | .unexpected _ =>
    some "A pattern starts with $, a command such as seq(...), or stroke symbols d, h, l, v, x"
  | .expected .number _ => some "Write the element count as a whole number, e.g. $dh:8"
  | .emptySequence => some "Add at least one symbol after $, e.g. $dh"
  | _ => none

end Cause

/-- A cause with its place in the source. -/
structure Problem where
  cause : Cause
  location : Location
deriving DecidableEq, Repr

/-- The problem as it is reported. -/
def Problem.diagnostic (p : Problem) : Diagnostic :=
  ⟨p.cause.message, p.location, p.cause.suggestion?⟩

/-- Why a pattern text gives no pattern: a problem that is reported, or a number that is not read. -/
inductive Fault where
  | problem (problem : Problem)
  | numeral (fault : Numeral.Fault)
deriving DecidableEq, Repr

end Rosette.Pattern
