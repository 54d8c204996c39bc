/-!
# Settings

What a run may be told: how deep patterns may nest, and whether text behind a complete pattern is let
through.
-/

namespace Rosette

/-- The settings of a run. -/
structure Settings where
  /-- The most sequences and commands on a path through a pattern. -/
  maxDepth : Int := 64
  /-- Whether tokens behind a complete pattern are ignored. -/
  trailing : Bool := true
deriving DecidableEq, Repr, Inhabited

end Rosette
