import Rosette.Pattern.Problem
import Rosette.Pattern.Word
import Rosette.Settings
import Rosette.Token.Scan

/-!
# From tokens to patterns

The grammar of pattern text:

    topLevel := pattern [':' NUMBER]
    pattern  := sequence | command | SYMBOL
    sequence := '$' (SYMBOL | command)+
    command  := IDENTIFIER '(' [argument (',' argument)* [',']] ')'
    argument := sequence | '@' (SYMBOL | IDENTIFIER) | command | SYMBOL | NUMBER

One function for each rule takes its tokens off the front of a list; the empty list is the end of the input.
What is left is never longer than what was given, and that ends the loops. Each sequence and command,
and each word of several letters, counts one level of nesting while it is read. A run that fails tells how
many levels it was in and which tokens it had left, so that another run can go on from there.
-/

namespace Rosette.Pattern

/-- What holds during one run: how deep the pattern may nest, and where the source ends. -/
structure Bounds where
  maxDepth : Int
  stop : Location

/-- How a run failed, in how many levels it was, and what it had not consumed. -/
structure Halt where
  fault : Fault
  depth : Nat
  rest : List Token

/-- What a rule read, and the tokens behind it. -/
structure Parsed (α : Type) (before : List Token) where
  value : α
  rest : List Token
  rest_le : rest.length ≤ before.length

/-- The token a run is at. -/
def Bounds.current (b : Bounds) : List Token → Token
  | [] => Token.endAt b.stop
  | t :: _ => t

/-- A failure at the token a run is at. -/
def Bounds.halt (b : Bounds) (depth : Nat) (ts : List Token) (cause : Cause) : Halt :=
  ⟨.problem ⟨cause, (b.current ts).location⟩, depth, ts⟩

/-- Whether one more level is too many. -/
def Bounds.full (b : Bounds) (depth : Nat) : Bool := b.maxDepth < (depth : Int) + 1

/-- The failure to enter a level that begins with a token. The level counts already. -/
def Bounds.haltDeep (b : Bounds) (depth : Nat) (t : Token) (ts : List Token) : Halt :=
  ⟨.problem ⟨.tooDeep b.maxDepth, t.location⟩, depth + 1, ts⟩

/-- The pattern of a word token with `ts` behind it. -/
def readWord (b : Bounds) (depth : Nat) (t : Token) (ts : List Token) : Except Halt Pattern :=
  match ofWord t.value.toList with
  | .error f => .error ⟨.numeral f, depth, ts⟩
  | .ok p => if p.isSequence && b.full depth then .error (b.haltDeep depth t ts) else .ok p

/-- The whole number of a number token with `ts` behind it. -/
def readNumber (depth : Nat) (t : Token) (ts : List Token) : Except Halt Nat :=
  match Numeral.read t.value.toList with
  | .error f => .error ⟨.numeral f, depth, ts⟩
  | .ok n => .ok n

/-- The name behind `@`. -/
def readName (b : Bounds) (depth : Nat) (ts : List Token) : Except Halt (Parsed Pattern ts) :=
  match ts with
  | [] => .error (b.halt depth [] (.badName (Token.endAt b.stop)))
  | t :: rest =>
    if t.kind = .symbol || t.kind = .identifier then
      .ok ⟨.reference t.value, rest, by simp only [List.length_cons]; omega⟩
    else .error (b.halt depth (t :: rest) (.badName t))

mutual

/-- A sequence behind its `$`. -/
def readSequence (b : Bounds) (depth : Nat) (dollar : Token) (ts : List Token) :
    Except Halt (Parsed Pattern ts) :=
  if b.full depth then .error (b.haltDeep depth dollar ts)
  else
    match readMembers b (depth + 1) ts with
    | .error h => .error h
    | .ok ⟨[], rest, _⟩ => .error (b.halt depth rest .emptySequence)
    | .ok ⟨p :: ps, rest, le⟩ => .ok ⟨.sequence (p :: ps) .absent, rest, le⟩
termination_by (ts.length, 1)

/-- The members of a sequence, up to a token that is none. -/
def readMembers (b : Bounds) (depth : Nat) (ts : List Token) : Except Halt (Parsed (List Pattern) ts) :=
  match ts with
  | [] => .ok ⟨[], [], Nat.le_refl _⟩
  | t :: rest =>
    if t.kind = .symbol then
      match readWord b depth t rest with
      | .error h => .error h
      | .ok p =>
        match readMembers b depth rest with
        | .error h => .error h
        | .ok ⟨ps, rest', le⟩ => .ok ⟨p :: ps, rest', by simp only [List.length_cons]; omega⟩
    else if t.kind = .identifier then
      match readCommand b depth t rest with
      | .error h => .error h
      | .ok ⟨p, rest', le⟩ =>
        match readMembers b depth rest' with
        | .error h => .error h
        | .ok ⟨ps, rest'', le'⟩ => .ok ⟨p :: ps, rest'', by simp only [List.length_cons]; omega⟩
    else .ok ⟨[], t :: rest, Nat.le_refl _⟩
termination_by (ts.length, 0)

/-- A command behind its name. -/
def readCommand (b : Bounds) (depth : Nat) (name : Token) (ts : List Token) :
    Except Halt (Parsed Pattern ts) :=
  match ts with
  | [] => .error (b.halt depth [] (.expected .lparen .eof))
  | t :: rest =>
    if t.kind = .lparen then
      if b.full depth then .error (b.haltDeep depth name rest)
      else
        match readArguments b (depth + 1) rest with
        | .error h => .error h
        | .ok ⟨args, rest', le⟩ =>
          .ok ⟨.command (String.ofList (Text.foldAscii name.value.toList)) args .absent, rest',
            by simp only [List.length_cons]; omega⟩
    else .error (b.halt depth (t :: rest) (.expected .lparen t.kind))
termination_by (ts.length, 0)

/-- The arguments of a command and the parenthesis behind them. A comma may stand behind the last one. -/
def readArguments (b : Bounds) (depth : Nat) (ts : List Token) :
    Except Halt (Parsed (List Pattern) ts) :=
  match ts with
  | [] => .error (b.halt depth [] (.badArgument (Token.endAt b.stop)))
  | t :: rest =>
    if t.kind = .rparen then .ok ⟨[], rest, by simp only [List.length_cons]; omega⟩
    else
      match readArgument b depth t rest with
      | .error h => .error h
      | .ok ⟨_, [], _⟩ => .error (b.halt depth [] .missingComma)
      | .ok ⟨p, s :: rest', le⟩ =>
        if s.kind = .comma then
          match readArguments b depth rest' with
          | .error h => .error h
          | .ok ⟨ps, rest'', le'⟩ =>
            .ok ⟨p :: ps, rest'', by simp only [List.length_cons] at *; omega⟩
        else if s.kind = .rparen then
          .ok ⟨[p], rest', by simp only [List.length_cons] at *; omega⟩
        else .error (b.halt depth (s :: rest') .missingComma)
termination_by (ts.length, 0)
decreasing_by
  · simp [Prod.lex_def]
  · simp only [List.length_cons, Prod.lex_def] at *; omega

/-- One argument, which begins with the token `t`. -/
def readArgument (b : Bounds) (depth : Nat) (t : Token) (ts : List Token) :
    Except Halt (Parsed Pattern ts) :=
  match t.kind with
  | .dollar => readSequence b depth t ts
  | .atSign => readName b depth ts
  | .identifier =>
    if (b.current ts).kind = .lparen then readCommand b depth t ts
    else .error (b.halt depth (t :: ts) (.expected .symbol .identifier))
  | .symbol =>
    match readWord b depth t ts with
    | .error h => .error h
    | .ok p => .ok ⟨p, ts, Nat.le_refl _⟩
  | .number =>
    match readNumber depth t ts with
    | .error h => .error h
    | .ok n => .ok ⟨.symbol Stroke.spacerLetter false (.times n), ts, Nat.le_refl _⟩
  | _ => .error (b.halt depth (t :: ts) (.badArgument t))
termination_by (ts.length, 2)

end

/-- A pattern without an element count. -/
def readPattern (b : Bounds) (depth : Nat) (ts : List Token) : Except Halt (Parsed Pattern ts) :=
  match ts with
  | [] => .error (b.halt depth [] (.unexpected (Token.endAt b.stop)))
  | t :: rest =>
    let found : Except Halt (Parsed Pattern rest) :=
      match t.kind with
      | .dollar => readSequence b depth t rest
      | .identifier => readCommand b depth t rest
      | .symbol =>
        match readWord b depth t rest with
        | .error h => .error h
        | .ok p => .ok ⟨p, rest, Nat.le_refl _⟩
      | _ => .error (b.halt depth (t :: rest) (.unexpected t))
    match found with
    | .error h => .error h
    | .ok ⟨p, rest', le⟩ => .ok ⟨p, rest', by simp only [List.length_cons]; omega⟩

/-- The element count that may follow a pattern. -/
def readCount (b : Bounds) (depth : Nat) (p : Pattern) (ts : List Token) :
    Except Halt (Parsed Pattern ts) :=
  match ts with
  | [] => .ok ⟨p, [], Nat.le_refl _⟩
  | t :: rest =>
    if t.kind = .colon then
      match rest with
      | [] => .error (b.halt depth [] (.expected .number .eof))
      | n :: rest' =>
        if n.kind = .number then
          match readNumber depth n rest' with
          | .error h => .error h
          | .ok k => .ok ⟨.elementCount p (.times k), rest', by simp only [List.length_cons]; omega⟩
        else .error (b.halt depth (n :: rest') (.expected .number n.kind))
    else .ok ⟨p, t :: rest, Nat.le_refl _⟩

/-- A whole pattern and the tokens behind it. Unless `trailing` allows them there may be none. -/
def readTopLevel (b : Bounds) (trailing : Bool) (depth : Nat) (ts : List Token) :
    Except Halt (Pattern × List Token) :=
  match readPattern b depth ts with
  | .error h => .error h
  | .ok ⟨p, rest, _⟩ =>
    match readCount b depth p rest with
    | .error h => .error h
    | .ok ⟨p, rest', _⟩ =>
      if !rest'.isEmpty && !trailing then
        .error (b.halt depth rest' (.trailing (b.current rest')))
      else .ok (p, rest')

/-! ## Runs -/

/-- A pattern text being read: the tokens not consumed and the levels entered. -/
structure Reader where
  bounds : Bounds
  rest : List Token
  depth : Nat := 0

/-- A reader at the start of a text. -/
def Reader.ofSource (maxDepth : Int) (source : String) : Reader :=
  let (tokens, stop) := Token.scan .start source.toList
  { bounds := ⟨maxDepth, stop⟩, rest := tokens }

/-- Reads one pattern. The reader afterwards is at the token where the run stopped. -/
def Reader.run (r : Reader) (trailing : Bool) : Except Fault Pattern × Reader :=
  match readTopLevel r.bounds trailing r.depth r.rest with
  | .error h => (.error h.fault, { r with rest := h.rest, depth := h.depth })
  | .ok (p, rest) => (.ok p, { r with rest })

/-- The pattern that a text writes. -/
def parse (s : Settings) (source : String) : Except Fault Pattern :=
  ((Reader.ofSource s.maxDepth source).run s.trailing).1

end Rosette.Pattern
