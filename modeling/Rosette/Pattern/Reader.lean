import Rosette.Pattern.Reading

/-!
# Readers that go on

A reader keeps its place between runs: another run begins at the token where the last one stopped. It counts levels
in one number, which each rule is handed as it is, raises where it enters a level, lowers where it leaves one, and
hands on. Nothing lowers it where a run fails.
-/

namespace Rosette.Pattern

namespace Reader

/-- What a rule took, the tokens behind it, and the levels counted afterwards. -/
structure Taken (α : Type) (before : List Token) where
  value : α
  rest : List Token
  depth : Nat
  rest_le : rest.length ≤ before.length

/-! ## What is left is not longer -/

section
variable {t s : Token} {rest mid ts : List Token}

theorem le_self (ts : List Token) : ts.length ≤ ts.length := Nat.le_refl _

theorem le_cons (h : rest.length ≤ ts.length) : rest.length ≤ (t :: ts).length := Nat.le_succ_of_le h

theorem le_behind (t : Token) (ts : List Token) : ts.length ≤ (t :: ts).length := Nat.le_succ _

theorem le_cons_of_le (hmid : mid.length ≤ ts.length) (h : rest.length ≤ mid.length) :
    rest.length ≤ (t :: ts).length := le_cons (Nat.le_trans h hmid)

theorem le_cons_of_cons_le (h : (s :: mid).length ≤ ts.length) : mid.length ≤ (t :: ts).length :=
  le_cons_of_le h (le_behind s mid)

theorem le_cons_of_cons_le_of_le (hmid : (s :: mid).length ≤ ts.length) (h : rest.length ≤ mid.length) :
    rest.length ≤ (t :: ts).length := Nat.le_trans h (le_cons_of_cons_le hmid)

end

/-! ## The rules with a count -/

/-- One level more. -/
def enter (b : Bounds) (depth : Nat) (t : Token) (ts : List Token) : Except Halt Nat :=
  if b.full depth then .error (b.haltDeep depth t ts) else .ok (depth + 1)

/-- The pattern of a word token with `ts` behind it. A word of several letters is entered and left at once. -/
def word (b : Bounds) (depth : Nat) (t : Token) (ts : List Token) : Except Halt (Taken Pattern ts) :=
  match ofWord t.value.toList with
  | .error f => .error ⟨.numeral f, depth, ts⟩
  | .ok p =>
    if p.isSequence then do
      let depth ← enter b depth t ts
      pure ⟨p, ts, depth - 1, le_self ts⟩
    else pure ⟨p, ts, depth, le_self ts⟩

mutual

/-- A sequence behind its `$`. -/
def sequence (b : Bounds) (depth : Nat) (dollar : Token) (ts : List Token) : Except Halt (Taken Pattern ts) := do
  let depth ← enter b depth dollar ts
  match ← members b depth ts with
  | ⟨[], rest, depth, _⟩ => .error (b.halt (depth - 1) rest .emptySequence)
  | ⟨p :: ps, rest, depth, le⟩ => pure ⟨.sequence (p :: ps) .absent, rest, depth - 1, le⟩
termination_by (ts.length, 1)

/-- The members of a sequence, up to a token that is none. -/
def members (b : Bounds) (depth : Nat) (ts : List Token) : Except Halt (Taken (List Pattern) ts) :=
  match ts with
  | [] => pure ⟨[], [], depth, Nat.le_refl _⟩
  | t :: rest =>
    if t.kind = .symbol then do
      let ⟨p, mid, depth, le⟩ ← word b depth t rest
      let ⟨ps, rest', depth, le'⟩ ← members b depth mid
      pure ⟨p :: ps, rest', depth, le_cons_of_le le le'⟩
    else if t.kind = .identifier then do
      let ⟨p, mid, depth, le⟩ ← command b depth t rest
      let ⟨ps, rest', depth, le'⟩ ← members b depth mid
      pure ⟨p :: ps, rest', depth, le_cons_of_le le le'⟩
    else pure ⟨[], t :: rest, depth, Nat.le_refl _⟩
termination_by (ts.length, 0)

/-- A command behind its name. -/
def command (b : Bounds) (depth : Nat) (name : Token) (ts : List Token) : Except Halt (Taken Pattern ts) :=
  match ts with
  | [] => .error (b.halt depth [] (.expected .lparen .eof))
  | t :: rest =>
    if t.kind = .lparen then do
      let depth ← enter b depth name rest
      let ⟨args, rest', depth, le⟩ ← arguments b depth rest
      pure ⟨.command (String.ofList (Text.foldAscii name.value.toList)) args .absent, rest', depth - 1,
        le_cons le⟩
    else .error (b.halt depth (t :: rest) (.expected .lparen t.kind))
termination_by (ts.length, 0)

/-- The arguments of a command and the parenthesis behind them. -/
def arguments (b : Bounds) (depth : Nat) (ts : List Token) : Except Halt (Taken (List Pattern) ts) :=
  match ts with
  | [] => .error (b.halt depth [] (.badArgument (Token.endAt b.stop)))
  | t :: rest =>
    if t.kind = .rparen then pure ⟨[], rest, depth, le_behind t rest⟩
    else do
      match ← argument b depth t rest with
      | ⟨_, [], depth, _⟩ => .error (b.halt depth [] .missingComma)
      | ⟨p, s :: mid, depth, le⟩ =>
        if s.kind = .comma then do
          let ⟨ps, rest', depth, le'⟩ ← arguments b depth mid
          pure ⟨p :: ps, rest', depth, le_cons_of_cons_le_of_le le le'⟩
        else if s.kind = .rparen then pure ⟨[p], mid, depth, le_cons_of_cons_le le⟩
        else .error (b.halt depth (s :: mid) .missingComma)
termination_by (ts.length, 0)
decreasing_by
  · simp [Prod.lex_def]
  · simp only [List.length_cons, Prod.lex_def] at *; omega

/-- One argument, which begins with the token `t`. -/
def argument (b : Bounds) (depth : Nat) (t : Token) (ts : List Token) : Except Halt (Taken Pattern ts) :=
  match t.kind with
  | .dollar => sequence b depth t ts
  | .atSign => do
    let ⟨p, rest, le⟩ ← readName b depth ts
    pure ⟨p, rest, depth, le⟩
  | .identifier =>
    if (b.current ts).kind = .lparen then command b depth t ts
    else .error (b.halt depth (t :: ts) (.expected .symbol .identifier))
  | .symbol => word b depth t ts
  | .number => do
    let n ← readNumber depth t ts
    pure ⟨.symbol Stroke.spacerLetter false (.times n), ts, depth, le_self ts⟩
  | _ => .error (b.halt depth (t :: ts) (.badArgument t))
termination_by (ts.length, 2)

end

/-- A pattern without an element count. -/
def pattern (b : Bounds) (depth : Nat) (ts : List Token) : Except Halt (Taken Pattern ts) :=
  match ts with
  | [] => .error (b.halt depth [] (.unexpected (Token.endAt b.stop)))
  | t :: rest => do
    let ⟨p, rest', depth, le⟩ ←
      match t.kind with
      | .dollar => sequence b depth t rest
      | .identifier => command b depth t rest
      | .symbol => word b depth t rest
      | _ => .error (b.halt depth (t :: rest) (.unexpected t))
    pure ⟨p, rest', depth, le_cons le⟩

/-- A whole pattern with the tokens behind it and the levels counted afterwards. Unless `trailing` allows such tokens
there may be none. -/
def topLevel (b : Bounds) (trailing : Bool) (depth : Nat) (ts : List Token) :
    Except Halt (Pattern × List Token × Nat) := do
  let ⟨p, mid, depth, _⟩ ← pattern b depth ts
  let ⟨p, rest, _⟩ ← readCount b depth p mid
  if !rest.isEmpty && !trailing then .error (b.halt depth rest (.trailing (b.current rest)))
  else pure (p, rest, depth)

end Reader

/-- Reads the next pattern. The reader afterwards is at the token where the run stopped, with the levels it has
counted. -/
def Reader.next (r : Reader) (trailing : Bool) : Except Fault Pattern × Reader :=
  match Reader.topLevel r.bounds trailing r.depth r.rest with
  | .error h => (.error h.fault, { r with rest := h.rest, depth := h.depth })
  | .ok (p, rest, depth) => (.ok p, { r with rest, depth })

/-- The token a reader is at: the first one it has not taken, or the end. -/
def Reader.current (r : Reader) : Token := r.bounds.current r.rest

end Rosette.Pattern
