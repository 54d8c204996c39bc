import Mathlib.Data.List.Forall2
import Rosette.Pattern.Reader
import Rosette.Proofs.Pattern.Failure
import Rosette.Proofs.Pattern.Locality
import Rosette.Proofs.Pattern.Relocation
import Rosette.Proofs.Token.Cut

/-!
# Readers go on where they stopped

A rule that succeeds has left as many levels as it has entered, and so it hands on the count that it was given: the
rules with a count are the rules at a depth (`sequence_eq` and the others). Hence a reader whose runs have succeeded is
inside no level, and is at some token of its text with all tokens from there on. These are the tokens of the rest of the
text, moved, so that the next run is a run over the rest of the text.

Main result: `next_of_resumed`.
-/

namespace Rosette.Pattern

open Token

variable {s : Settings} {source : String} {r r' : Reader} {p : Pattern} {trailing : Bool}

/-! ## The count of levels -/

/-- What a rule took, where the count afterwards is known. -/
def Parsed.counting {α : Type} {ts : List Token} (depth : Nat) (x : Parsed α ts) : Reader.Taken α ts :=
  ⟨x.value, x.rest, depth, x.rest_le⟩

namespace Reader

theorem word_eq (b : Bounds) (depth : Nat) (t : Token) (ts : List Token) :
    word b depth t ts = (readWord b depth t ts).map fun p => ⟨p, ts, depth, Reader.le_self ts⟩ := by
  unfold word readWord enter
  cases ofWord t.value.toList with
  | error f => rfl
  | ok p =>
    dsimp only
    cases p.isSequence with
    | false => rfl
    | true => cases b.full depth <;> rfl

mutual

theorem sequence_eq (b : Bounds) (depth : Nat) (t : Token) (ts : List Token) :
    sequence b depth t ts = (readSequence b depth t ts).map (·.counting depth) := by
  rw [sequence, readSequence, enter]
  split
  · rfl
  -- the members hand on the count with the level of the sequence, which is then left
  dsimp only [bind, Except.bind]
  rw [members_eq b (depth + 1) ts]
  rcases readMembers b (depth + 1) ts with h | ⟨_ | ⟨p, ps⟩, rest, le⟩ <;> rfl
termination_by (ts.length, 1)

theorem members_eq (b : Bounds) (depth : Nat) :
    (ts : List Token) → members b depth ts = (readMembers b depth ts).map (·.counting depth)
  | [] => by
    rw [members, readMembers]
    rfl
  | t :: ts => by
    rw [members, readMembers]
    split
    · rw [word_eq]
      cases readWord b depth t ts with
      | error h => rfl
      | ok p =>
        dsimp only [bind, Except.bind, Except.map]
        rw [members_eq b depth ts]
        rcases readMembers b depth ts with h | ⟨ps, rest, le⟩ <;> rfl
    split
    · rw [command_eq b depth t ts]
      rcases readCommand b depth t ts with h | ⟨p, mid, le⟩
      · rfl
      · dsimp only [bind, Except.bind, Except.map, Parsed.counting]
        rw [members_eq b depth mid]
        rcases readMembers b depth mid with h | ⟨ps, rest, le'⟩ <;> rfl
    · rfl
termination_by ts => (ts.length, 0)

theorem command_eq (b : Bounds) (depth : Nat) (t : Token) :
    (ts : List Token) → command b depth t ts = (readCommand b depth t ts).map (·.counting depth)
  | [] => by
    rw [command, readCommand]
    rfl
  | paren :: ts => by
    rw [command, readCommand, enter]
    split
    · split
      · rfl
      dsimp only [bind, Except.bind]
      rw [arguments_eq b (depth + 1) ts]
      rcases readArguments b (depth + 1) ts with h | ⟨args, rest, le⟩ <;> rfl
    · rfl
termination_by ts => (ts.length, 0)

theorem arguments_eq (b : Bounds) (depth : Nat) :
    (ts : List Token) → arguments b depth ts = (readArguments b depth ts).map (·.counting depth)
  | [] => by
    rw [arguments, readArguments]
    rfl
  | t :: ts => by
    rw [arguments, readArguments]
    split
    · rfl
    rw [argument_eq b depth t ts]
    rcases readArgument b depth t ts with h | ⟨p, _ | ⟨mark, mid⟩, le⟩
    · rfl
    · rfl
    · dsimp only [bind, Except.bind, Except.map, Parsed.counting]
      split
      · rw [arguments_eq b depth mid]
        rcases readArguments b depth mid with h | ⟨ps, rest, le'⟩ <;> rfl
      split
      · rfl
      · rfl
termination_by ts => (ts.length, 0)
decreasing_by
  · simp [Prod.lex_def]
  · simp only [List.length_cons, Prod.lex_def] at *; omega

theorem argument_eq (b : Bounds) (depth : Nat) (t : Token) (ts : List Token) :
    argument b depth t ts = (readArgument b depth t ts).map (·.counting depth) := by
  rw [argument, readArgument]
  cases t.kind with
  | dollar => exact sequence_eq b depth t ts
  | atSign => rcases readName b depth ts with h | ⟨p, rest, le⟩ <;> rfl
  | identifier =>
    dsimp only
    split
    · exact command_eq b depth t ts
    · rfl
  | symbol =>
    dsimp only
    rw [word_eq]
    cases readWord b depth t ts <;> rfl
  | number => cases readNumber depth t ts <;> rfl
  | _ => rfl
termination_by (ts.length, 2)

end

theorem pattern_eq (b : Bounds) (depth : Nat) (ts : List Token) :
    pattern b depth ts = (readPattern b depth ts).map (·.counting depth) := by
  cases ts with
  | nil => rfl
  | cons t ts =>
    rw [pattern, readPattern]
    cases t.kind with
    | dollar =>
      dsimp only
      rw [sequence_eq]
      rcases readSequence b depth t ts with h | ⟨p, rest, le⟩ <;> rfl
    | identifier =>
      dsimp only
      rw [command_eq]
      rcases readCommand b depth t ts with h | ⟨p, rest, le⟩ <;> rfl
    | symbol =>
      dsimp only
      rw [word_eq]
      cases readWord b depth t ts <;> rfl
    | _ => rfl

/-- **A run leaves the levels it enters**: it reads what it reads at a depth, and the count is as before. -/
theorem topLevel_eq (b : Bounds) (trailing : Bool) (depth : Nat) (ts : List Token) :
    topLevel b trailing depth ts = (readTopLevel b trailing depth ts).map fun x => (x.1, x.2, depth) := by
  rw [topLevel, readTopLevel, pattern_eq]
  rcases readPattern b depth ts with h | ⟨p, mid, le⟩
  · rfl
  dsimp only [bind, Except.bind, Except.map, Parsed.counting]
  rcases readCount b depth p mid with h | ⟨q, rest, le'⟩
  · rfl
  dsimp only
  split <;> rfl

end Reader

theorem Reader.next_eq_run (r : Reader) (trailing : Bool) : r.next trailing = r.run trailing := by
  rw [Reader.next, Reader.run, Reader.topLevel_eq]
  rcases readTopLevel r.bounds trailing r.depth r.rest with h | ⟨p, rest⟩ <;> rfl

/-! ## Runs one after the other -/

/-- A reader of a text, whose runs have all succeeded. -/
inductive Resumed (s : Settings) (source : String) : Reader → Prop where
  | start : Resumed s source (Reader.ofSource s.maxDepth source)
  | next {r r' : Reader} {p : Pattern} (h : Resumed s source r) (hp : r.next s.trailing = (.ok p, r')) :
      Resumed s source r'

/-- A run that succeeds takes tokens, and changes nothing else. -/
theorem Reader.rest_of_next (h : r.next trailing = (.ok p, r')) :
    r'.bounds = r.bounds ∧ r'.depth = r.depth ∧ ∃ used, r.rest = used ++ r'.rest := by
  rw [Reader.next_eq_run, Reader.run] at h
  split at h
  · cases h
  · rename_i hread
    cases h
    obtain ⟨used, hused, -⟩ := stays_topLevel hread
    exact ⟨rfl, rfl, used, hused⟩

/-- A reader whose runs have succeeded is inside no level, and has taken the first tokens of its text. -/
theorem Resumed.tokens (h : Resumed s source r) :
    r.depth = 0 ∧ r.bounds.maxDepth = s.maxDepth ∧
      ∃ used, tokenize source = used ++ (r.rest ++ [endAt r.bounds.stop]) := by
  induction h with
  | start => exact ⟨rfl, rfl, [], rfl⟩
  | next _ hp ih =>
    obtain ⟨hbounds, hdepth, taken, htaken⟩ := Reader.rest_of_next hp
    obtain ⟨hzero, hlimit, used, hused⟩ := ih
    rw [hbounds, hdepth]
    refine ⟨hzero, hlimit, used ++ taken, ?_⟩
    rw [hused, htaken, List.append_assoc, List.append_assoc]

/-! ## The rest of the text -/

/-- A fault as it is reported, or the number that is not read. -/
def Fault.report : Fault → Diagnostic ⊕ Numeral.Fault
  | .problem p => .inl p.diagnostic
  | .numeral f => .inr f

theorem Fault.report_of_alike {front : List Char} {f f' : Fault}
    (h : f.Alike (fun l l' => l' = l.behind front) f') :
    f'.report = f.report.map (·.shifted (front.count '\n') (Location.lastLine front).length front.length) id := by
  cases h with
  | problem cause place =>
    rw [report, report, Problem.diagnostic, Problem.diagnostic, cause.message, cause.suggestion, place]
    rfl
  | numeral => rfl

theorem Reader.run_fst (r : Reader) (trailing : Bool) :
    (r.run trailing).1 = ((readTopLevel r.bounds trailing r.depth r.rest).map Prod.fst).mapError Halt.fault := by
  rw [Reader.run]
  rcases readTopLevel r.bounds trailing r.depth r.rest with h | ⟨p, rest⟩ <;> rfl

/-- **A reader that succeeded can go on.** After runs that have all succeeded a reader is inside no level and has taken
the first tokens of its text. Its next run gives what a new reader gives for the text from the current token on: the
same pattern, or the same message and hint at the place moved by the text in front of that token. -/
theorem next_of_resumed (h : Resumed s source r) :
    let front := (textBefore source r.current).toList
    r.depth = 0 ∧ (∃ used, tokenize source = used ++ (r.rest ++ [endAt r.bounds.stop])) ∧
      (r.next s.trailing).1.mapError Fault.report =
        (parse s (textFrom source r.current)).mapError fun f =>
          f.report.map (·.shifted (front.count '\n') (Location.lastLine front).length front.length) id := by
  intro front
  obtain ⟨hdepth, hlimit, used, hused⟩ := h.tokens
  refine ⟨hdepth, ⟨used, hused⟩, ?_⟩
  obtain ⟨others, hcurrent⟩ : ∃ others, r.rest ++ [endAt r.bounds.stop] = r.current :: others := by
    rw [Reader.current]
    cases r.rest with
    | nil => exact ⟨[], rfl⟩
    | cons t ts => exact ⟨ts ++ [endAt r.bounds.stop], rfl⟩
  -- the tokens that are left are those of the rest of the text, moved
  have hmoved := tokenize_textFrom (hcurrent ▸ hused)
  rw [tokenize_eq, List.map_append, ← hcurrent, ← scan_snd] at hmoved
  obtain ⟨hrest, hend⟩ := List.append_inj' hmoved rfl
  have hstop : r.bounds.stop = (scan .start (textFrom source r.current).toList).2.behind front :=
    congrArg Token.location (List.cons.inj hend).1.symm
  have hbounds : Bounds.Alike (fun l l' => l' = l.behind front)
      ⟨s.maxDepth, (scan .start (textFrom source r.current).toList).2⟩ r.bounds := ⟨hlimit, hstop⟩
  have halike : List.Forall₂ (Token.Alike fun l l' => l' = l.behind front)
      (scan .start (textFrom source r.current).toList).1 r.rest := by
    rw [← hrest, List.forall₂_map_right_iff]
    exact List.forall₂_same.2 fun _ _ => ⟨rfl, rfl, rfl⟩
  have hruns := alike_topLevel hbounds halike s.trailing 0
  rw [Reader.next_eq_run, Reader.run_fst, hdepth, parse, Reader.run_fst, Reader.ofSource]
  dsimp only
  generalize readTopLevel ⟨s.maxDepth, (scan .start (textFrom source r.current).toList).2⟩ s.trailing 0
    (scan .start (textFrom source r.current).toList).1 = fresh,
    readTopLevel r.bounds s.trailing 0 r.rest = resumed at hruns
  cases hruns with
  | ok same => exact congrArg Except.ok same.1
  | error halt => exact congrArg Except.error (Fault.report_of_alike halt.fault)

/-- Behind `d` on the first line, the `$` on the second has nothing behind it. -/
theorem next_of_resumed_feed :
    ∃ r, Resumed ⟨1, true⟩ "d\n$" r ∧ r.depth = 0 ∧ (r.next true).1.mapError Fault.report =
      .error (.inl ⟨"Empty sequence after $", ⟨2, 2, 3⟩, some "Add at least one symbol after $, e.g. $dh"⟩) := by
  have htokens : scan .start "d\n$".toList =
      ([⟨.symbol, "d", ⟨1, 1, 0⟩⟩, ⟨.dollar, "$", ⟨2, 1, 2⟩⟩], ⟨2, 2, 3⟩) := by
    decide +kernel
  have hword : ofWord ['d'] = .ok (.symbol "d" false .absent) := by with_unfolding_all rfl
  let r : Reader := ⟨⟨1, ⟨2, 2, 3⟩⟩, [⟨.dollar, "$", ⟨2, 1, 2⟩⟩], 0⟩
  have hfirst : (Reader.ofSource 1 "d\n$").next true = (.ok (.symbol "d" false .absent), r) := by
    rw [Reader.next_eq_run]
    simp only [Reader.run, Reader.ofSource, htokens]
    simp [readTopLevel, readPattern, readWord, readCount, hword, isSequence, r]
  have hresumed : Resumed ⟨1, true⟩ "d\n$" r := .next .start hfirst
  obtain ⟨hdepth, -, hnext⟩ := next_of_resumed hresumed
  refine ⟨r, hresumed, hdepth, hnext.trans ?_⟩
  have hrest : textFrom "d\n$" r.current = "$" := by decide
  have hmark : scan .start "$".toList = ([⟨.dollar, "$", ⟨1, 1, 0⟩⟩], ⟨1, 2, 1⟩) := by decide +kernel
  have hread : parse ⟨1, true⟩ "$" = .error (.problem ⟨.emptySequence, ⟨1, 2, 1⟩⟩) := by
    simp only [parse, Reader.run, Reader.ofSource, hmark]
    simp [readTopLevel, readPattern, readSequence, readMembers, Bounds.full, Bounds.halt, Bounds.current, endAt]
  have hfront : (textBefore "d\n$" r.current).toList = ['d', '\n'] := by decide
  rw [hrest, hread, hfront]
  rfl

end Rosette.Pattern
