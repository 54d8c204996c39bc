import Rosette.Pattern.Reading

/-!
# Cursors

The rules of the grammar with a cursor that moves over a list of tokens. The list ends in a token for the end of the
input, which the cursor does not pass. The loops over the members of a sequence and over the arguments of a command take
turns until one of them leaves the loop. Nothing here says that one does: a run is given so many turns, and `none` is a
run that would take more. A run that never ends is `none` for any number of turns.
-/

namespace Rosette.Pattern

/-- A place in a list of tokens, with the token there and the levels that are counted. -/
structure Cursor where
  tokens : List Token
  pos : Nat
  current : Token
  depth : Nat

namespace Cursor

/-- The cursor at the next token. At the last one it stays. -/
def advance (c : Cursor) : Cursor :=
  if h : c.pos + 1 < c.tokens.length then { c with pos := c.pos + 1, current := c.tokens[c.pos + 1] } else c

/-- The token behind the current one. -/
def peek? (c : Cursor) : Option Token := c.tokens[c.pos + 1]?

theorem advance_of_peek? {c : Cursor} {t : Token} (h : c.peek? = some t) :
    c.advance = { c with pos := c.pos + 1, current := t } := by
  obtain ⟨hlt, rfl⟩ := List.getElem?_eq_some_iff.1 h
  exact dif_pos hlt

/-- What is done with a cursor. It may fail, with the cursor where it is then, and it may be cut off. -/
abbrev Moving (α : Type) := ExceptT Fault (StateT Cursor Option) α

/-! ## Steps -/

/-- Fails at the current token. -/
def fail {α : Type} (cause : Cause) : Moving α := do
  let c ← get
  throw (.problem ⟨cause, c.current.location⟩)

/-- Takes the current token. Nothing else moves a cursor. -/
def take : Moving Token := do
  let c ← get
  set c.advance
  pure c.current

/-- Takes the current token if it is of a kind. -/
def expect (kind : Token.Kind) : Moving Token := do
  let c ← get
  if c.current.kind = kind then take else fail (.expected kind c.current.kind)

/-- One level more, which begins with a token. -/
def enter (limit : Int) (t : Token) : Moving Unit := do
  modify fun c => { c with depth := c.depth + 1 }
  let c ← get
  if limit < (c.depth : Int) then throw (.problem ⟨.tooDeep limit, t.location⟩) else pure ()

/-- One level less. -/
def leave : Moving Unit := modify fun c => { c with depth := c.depth - 1 }

/-- The whole number of a number token. -/
def number (t : Token) : Moving Nat :=
  match Numeral.read t.value.toList with
  | .error f => throw (.numeral f)
  | .ok n => pure n

/-! ## Rules -/

/-- A word. One of several letters is a level, which is left at once. -/
def symbol (limit : Int) : Moving Pattern := do
  let t ← expect .symbol
  match ofWord t.value.toList with
  | .error f => throw (.numeral f)
  | .ok p =>
    if p.isSequence then do
      enter limit t
      leave
      pure p
    else pure p

/-- The name behind `@`. -/
def name : Moving Pattern := do
  let c ← get
  if c.current.kind = .symbol || c.current.kind = .identifier then do
    let t ← take
    pure (.reference t.value)
  else fail (.badName c.current)

/-- The comma behind an argument, unless the command ends there. -/
def separator : Moving Unit := do
  let c ← get
  if c.current.kind = .comma then do
    let _ ← take
    pure ()
  else if c.current.kind = .rparen then pure ()
  else fail .missingComma

/-- The loops inside the rules: the members of a sequence, and the arguments of a command. -/
structure Loops where
  members : Moving (List Pattern)
  arguments : Moving (List Pattern)

section
variable (limit : Int) (loops : Loops)

/-- A sequence. -/
def sequence : Moving Pattern := do
  let dollar ← expect .dollar
  enter limit dollar
  let patterns ← loops.members
  leave
  if patterns.isEmpty then fail .emptySequence else pure (.sequence patterns .absent)

/-- A command. -/
def command : Moving Pattern := do
  let name ← expect .identifier
  let _ ← expect .lparen
  enter limit name
  let args ← loops.arguments
  let _ ← expect .rparen
  leave
  pure (.command (String.ofList (Text.foldAscii name.value.toList)) args .absent)

/-- One argument. A keyword is one only where a command begins. -/
def argument : Moving Pattern := do
  let c ← get
  match c.current.kind with
  | .dollar => sequence limit loops
  | .atSign => do
    let _ ← take
    name
  | .identifier => if c.peek?.any (·.kind = .lparen) then command limit loops else symbol limit
  | .symbol => symbol limit
  | .number => do
    let t ← take
    let n ← number t
    pure (.symbol Stroke.spacerLetter false (.times n))
  | _ => fail (.badArgument c.current)

/-- One turn of the loop over the members, which gives a member or leaves the loop. -/
def memberTurn : Moving (Option Pattern) := do
  let c ← get
  match c.current.kind with
  | .symbol => do
    let p ← symbol limit
    pure (some p)
  | .identifier => do
    let p ← command limit loops
    pure (some p)
  | _ => pure none

/-- One turn of the loop over the arguments, which gives an argument or leaves the loop. -/
def argumentTurn : Moving (Option Pattern) := do
  let c ← get
  if c.current.kind = .rparen then pure none
  else do
    let p ← argument limit loops
    separator
    pure (some p)

/-- A pattern without an element count. -/
def pattern : Moving Pattern := do
  let c ← get
  match c.current.kind with
  | .dollar => sequence limit loops
  | .identifier => command limit loops
  | .symbol => symbol limit
  | _ => fail (.unexpected c.current)

/-- The element count that may follow a pattern. -/
def elementCount (p : Pattern) : Moving Pattern := do
  let c ← get
  if c.current.kind = .colon then do
    let _ ← take
    let t ← expect .number
    let n ← number t
    pure (.elementCount p (.times n))
  else pure p

/-- A whole pattern. Unless `trailing` allows tokens behind it there may be none. -/
def topLevel (trailing : Bool) : Moving Pattern := do
  let p ← pattern limit loops
  let p ← elementCount p
  let c ← get
  if c.current.kind ≠ .eof && !trailing then fail (.trailing c.current) else pure p

end

/-! ## Loops -/

/-- One turn, and the turns behind it unless it leaves the loop. -/
def loop (turn : Moving (Option Pattern)) (again : Moving (List Pattern)) : Moving (List Pattern) := do
  match ← turn with
  | none => pure []
  | some p => do
    let ps ← again
    pure (p :: ps)

/-- A run that is cut off. -/
def cut {α : Type} : Moving α := fun _ => none

/-- The loops with so many turns. The turns behind a turn have one fewer, and so have the loops inside it. -/
def turns (limit : Int) : Nat → Loops
  | 0 => ⟨cut, cut⟩
  | n + 1 => ⟨loop (memberTurn limit (turns limit n)) (turns limit n).members,
      loop (argumentTurn limit (turns limit n)) (turns limit n).arguments⟩

/-- The rules that are called with a cursor. -/
inductive Rule where
  | symbol
  | sequence
  | command
  | argument
  | pattern
  | topLevel (trailing : Bool)

/-- A call of a rule whose loops have so many turns. -/
def Rule.call (limit : Int) (n : Nat) : Rule → Moving Pattern
  | .symbol => Cursor.symbol limit
  | .sequence => Cursor.sequence limit (turns limit n)
  | .command => Cursor.command limit (turns limit n)
  | .argument => Cursor.argument limit (turns limit n)
  | .pattern => Cursor.pattern limit (turns limit n)
  | .topLevel trailing => Cursor.topLevel limit (turns limit n) trailing

end Cursor

end Rosette.Pattern
