import Rosette.Proofs.Pattern.Cursor
import Rosette.Proofs.Token.Lexeme

/-!
# Cursors and runs

A rule that is called with a cursor does what the rule does that takes tokens off the front of a list: the cursor is at
the first token that is left, or at the end of the input, and both come to the same pattern or the same fault, with the
same tokens left and the same levels counted (`Follows`, and one lemma for each rule). The parenthesis behind the
arguments of a command is taken by the command here and by the arguments there, so it is put with them (`closed`).

Main results: `runs_topLevel`, `runs_parse`.
-/

namespace Rosette.Pattern

open Cursor

/-- The cursor of a run over `all` that has `rest` left and counts so many levels. -/
def Bounds.cursor (b : Bounds) (all rest : List Token) (depth : Nat) : Cursor :=
  ⟨all ++ [Token.endAt b.stop], all.length - rest.length, b.current rest, depth⟩

variable {α β : Type} {b : Bounds} {all ts rest : List Token} {t : Token} {depth : Nat} {c : Cursor}

/-! ## Places -/

theorem getElem?_cursor (h : rest <:+ all) :
    (all ++ [Token.endAt b.stop])[all.length - rest.length]? = some (b.current rest) := by
  obtain ⟨front, rfl⟩ := h
  rw [List.length_append, Nat.add_sub_cancel, List.append_assoc, List.getElem?_append_right (Nat.le_refl _),
    Nat.sub_self]
  cases rest <;> rfl

theorem placed_cursor (h : rest <:+ all) : (b.cursor all rest depth).Placed :=
  ⟨getElem?_cursor h, all, _, rfl, rfl⟩

@[simp]
theorem current_cursor_cons : (b.cursor all (t :: ts) depth).current = t := rfl

theorem pos_cursor_succ (h : t :: ts <:+ all) : (b.cursor all (t :: ts) depth).pos + 1 = all.length - ts.length := by
  have hle := h.length_le
  simp only [Bounds.cursor, List.length_cons] at *
  omega

theorem peek?_cursor (h : t :: ts <:+ all) : (b.cursor all (t :: ts) depth).peek? = some (b.current ts) := by
  rw [Cursor.peek?, pos_cursor_succ h]
  exact getElem?_cursor ((List.suffix_cons t ts).trans h)

theorem advance_cursor (h : t :: ts <:+ all) : (b.cursor all (t :: ts) depth).advance = b.cursor all ts depth := by
  rw [advance_of_peek? (peek?_cursor h), pos_cursor_succ h]
  rfl

/-! ## Steps -/

section
variable {x y : Moving α} {r : Except Fault α} {c' : Cursor} {q : Prop} [Decidable q]

theorem runs_map {f : α → β} (h : Runs x c r c') : Runs (do let a ← x; pure (f a)) c (r.map f) c' := by
  cases r with
  | ok a => exact h.bind rfl
  | error e => exact h.bind_error

theorem runs_get {f : Cursor → Moving α} (h : Runs (f c) c r c') : Runs (get >>= f) c r c' := h

theorem runs_if (hq : q) (h : Runs x c r c') : Runs (if q then x else y) c r c' := (if_pos hq).symm ▸ h

theorem runs_else (hq : ¬ q) (h : Runs y c r c') : Runs (if q then x else y) c r c' := (if_neg hq).symm ▸ h

end

theorem runs_fail {cause : Cause} :
    Runs (fail cause : Moving α) (b.cursor all ts depth) (.error (b.halt depth ts cause).fault)
      (b.cursor all ts depth) := rfl

theorem runs_take (h : t :: ts <:+ all) : Runs take (b.cursor all (t :: ts) depth) (.ok t) (b.cursor all ts depth) := by
  rw [← advance_cursor h]
  rfl

theorem runs_expect {kind : Token.Kind} (h : t :: ts <:+ all) (hkind : t.kind = kind) :
    Runs (expect kind) (b.cursor all (t :: ts) depth) (.ok t) (b.cursor all ts depth) :=
  runs_get <| runs_if hkind <| runs_take h

theorem runs_expect_error {kind : Token.Kind} (hkind : (b.current ts).kind ≠ kind) :
    Runs (expect kind) (b.cursor all ts depth) (.error (b.halt depth ts (.expected kind (b.current ts).kind)).fault)
      (b.cursor all ts depth) :=
  runs_get <| runs_else hkind runs_fail

theorem runs_enter (hfull : b.full depth = false) :
    Runs (enter b.maxDepth t) (b.cursor all ts depth) (.ok ()) (b.cursor all ts (depth + 1)) := by
  have hroom : ¬ b.maxDepth < ((depth + 1 : Nat) : Int) := of_decide_eq_false hfull
  exact Runs.bind rfl <| runs_get <| runs_else hroom rfl

theorem runs_enter_error (hfull : b.full depth = true) :
    Runs (enter b.maxDepth t) (b.cursor all ts depth) (.error (b.haltDeep depth t ts).fault)
      (b.cursor all ts (depth + 1)) := by
  have hroom : b.maxDepth < ((depth + 1 : Nat) : Int) := of_decide_eq_true hfull
  exact Runs.bind rfl <| runs_get <| runs_if hroom rfl

theorem runs_leave : Runs leave (b.cursor all ts (depth + 1)) (.ok ()) (b.cursor all ts depth) := rfl

/-! ## Rules of two kinds -/

/-- A rule with a cursor comes to what a rule comes to that takes tokens off the front of `ts`: to the same fault, with
the same tokens left and levels counted, or to the same value with the same tokens left and in as many levels. -/
inductive Follows (b : Bounds) (all : List Token) (depth : Nat) (x : Moving α) (c : Cursor) :
    Except Halt (Parsed α ts) → Prop
  | error {e : Halt} (runs : Runs x c (.error e.fault) (b.cursor all e.rest e.depth)) :
      Follows b all depth x c (.error e)
  | ok {a : α} {rest : List Token} {le : rest.length ≤ ts.length} (left : rest <:+ all)
      (runs : Runs x c (.ok a) (b.cursor all rest depth)) : Follows b all depth x c (.ok ⟨a, rest, le⟩)

/-- What comes first and succeeds is run before. -/
theorem Follows.behind {x : Moving β} {f : β → Moving α} {a : β} {c' : Cursor} {r : Except Halt (Parsed α ts)}
    (hx : Runs x c (.ok a) c') (h : Follows b all depth (f a) c' r) : Follows b all depth (x >>= f) c r := by
  cases h with
  | error runs => exact .error (hx.bind runs)
  | ok left runs => exact .ok left (hx.bind runs)

theorem Follows.get {f : Cursor → Moving α} {r : Except Halt (Parsed α ts)} (h : Follows b all depth (f c) c r) :
    Follows b all depth (get >>= f) c r :=
  Follows.behind rfl h

/-! ## Rules without loops -/

section
variable {p : Pattern} {e : Halt} {n : Nat}

theorem runs_symbol (h : t :: ts <:+ all) (hkind : t.kind = .symbol) (hword : readWord b depth t ts = .ok p) :
    Runs (Cursor.symbol b.maxDepth) (b.cursor all (t :: ts) depth) (.ok p) (b.cursor all ts depth) := by
  refine (runs_expect h hkind).bind ?_
  unfold readWord at hword
  cases hread : ofWord t.value.toList with
  | error f => simp [hread] at hword
  | ok q =>
    simp only [hread, Bool.and_eq_true] at hword ⊢
    split at hword
    · cases hword
    · cases hword
      by_cases hseq : p.isSequence = true
      · exact runs_if hseq <| (runs_enter (by simp_all)).bind <| runs_leave.bind rfl
      · exact runs_else hseq rfl

theorem runs_symbol_error (h : t :: ts <:+ all) (hkind : t.kind = .symbol) (hword : readWord b depth t ts = .error e) :
    Runs (Cursor.symbol b.maxDepth) (b.cursor all (t :: ts) depth) (.error e.fault) (b.cursor all e.rest e.depth) := by
  refine (runs_expect h hkind).bind ?_
  unfold readWord at hword
  cases hread : ofWord t.value.toList with
  | error f =>
    simp only [hread] at hword ⊢
    cases hword
    rfl
  | ok q =>
    simp only [hread, Bool.and_eq_true] at hword ⊢
    split at hword
    · cases hword
      rename_i hfull
      exact runs_if hfull.1 <| (runs_enter_error hfull.2).bind_error
    · cases hword

theorem runs_number (hread : readNumber depth t ts = .ok n) :
    Runs (number t) (b.cursor all ts depth) (.ok n) (b.cursor all ts depth) := by
  unfold number
  cases hnum : Numeral.read t.value.toList with
  | error f => simp [readNumber, hnum] at hread
  | ok m =>
    obtain rfl : m = n := by simpa [readNumber, hnum] using hread
    rfl

theorem runs_number_error (hread : readNumber depth t ts = .error e) :
    Runs (number t) (b.cursor all ts depth) (.error e.fault) (b.cursor all e.rest e.depth) := by
  unfold number
  cases hnum : Numeral.read t.value.toList with
  | error f =>
    obtain rfl : ⟨.numeral f, depth, ts⟩ = e := by simpa [readNumber, hnum] using hread
    rfl
  | ok m => simp [readNumber, hnum] at hread

end

theorem follows_name (h : ts <:+ all) : Follows b all depth name (b.cursor all ts depth) (readName b depth ts) := by
  unfold readName
  cases ts with
  | nil => exact .error (runs_get <| runs_else (by simp [Bounds.cursor, Bounds.current, Token.endAt]) runs_fail)
  | cons t rest =>
    by_cases hkind : (t.kind = .symbol || t.kind = .identifier) = true
    · simp only [if_pos hkind]
      exact .ok ((List.suffix_cons t rest).trans h) (runs_get <| runs_if hkind <| (runs_take h).bind rfl)
    · simp only [if_neg hkind]
      exact .error (runs_get <| runs_else hkind runs_fail)

theorem follows_elementCount (p : Pattern) (h : ts <:+ all) :
    Follows b all depth (Cursor.elementCount p) (b.cursor all ts depth) (readCount b depth p ts) := by
  refine Follows.get ?_
  cases ts with
  | nil =>
    have hcurrent : (b.cursor all [] depth).current.kind ≠ .colon := nofun
    rw [if_neg hcurrent]
    exact .ok h rfl
  | cons t rest =>
    have hleft := (List.suffix_cons t rest).trans h
    rw [current_cursor_cons]
    by_cases hcolon : t.kind = .colon
    · rw [if_pos hcolon]
      refine Follows.behind (runs_take h) ?_
      cases rest with
      | nil =>
        have hcurrent : (b.current []).kind ≠ .number := nofun
        rw [readCount, if_pos hcolon]
        exact .error (runs_expect_error hcurrent).bind_error
      | cons n rest =>
        rw [readCount, if_pos hcolon]
        by_cases hnumber : n.kind = .number
        · rw [if_pos hnumber]
          refine Follows.behind (runs_expect hleft hnumber) ?_
          cases hread : readNumber depth n rest with
          | error e => exact .error (runs_number_error hread).bind_error
          | ok k => exact .ok ((List.suffix_cons n rest).trans hleft) ((runs_number hread).bind rfl)
        · rw [if_neg hnumber]
          have hcurrent : (b.current (n :: rest)).kind ≠ .number := hnumber
          exact .error (runs_expect_error hcurrent).bind_error
    · rw [if_neg hcolon, readCount.eq_def]
      simp only [if_neg hcolon]
      exact .ok h rfl

/-! ## Loops -/

section
variable {limit : Int} {loops : Loops} {p : Pattern} {e : Fault} {c₁ c₂ : Cursor} {turn : Moving (Option Pattern)}
  {again : Moving (List Pattern)} {r : Except Fault (List Pattern)}

theorem runs_loop_none (hturn : Runs turn c (.ok none) c₁) : Runs (loop turn again) c (.ok []) c₁ := hturn.bind rfl

theorem runs_loop_some (hturn : Runs turn c (.ok (some p)) c₁) (h : Runs again c₁ r c₂) :
    Runs (loop turn again) c (r.map (p :: ·)) c₂ := hturn.bind (runs_map h)

theorem runs_loop_error (hturn : Runs turn c (.error e) c₁) : Runs (loop turn again) c (.error e) c₁ :=
  hturn.bind_error

/-- The arguments of a command and the parenthesis behind them. -/
def Cursor.closed (args : Moving (List Pattern)) : Moving (List Pattern) := do
  let args ← args
  let _ ← expect .rparen
  pure args

theorem closed_loop (turn : Moving (Option Pattern)) (again : Moving (List Pattern)) :
    closed (loop turn again) = (do
      match ← turn with
      | none => closed (pure [])
      | some p => do
        let ps ← closed again
        pure (p :: ps)) := by
  rw [closed, loop, bind_assoc]
  refine bind_congr fun a => ?_
  cases a with
  | none => rfl
  | some p => simp only [closed, bind_assoc, pure_bind]

theorem runs_closed_none (hturn : Runs turn c (.ok none) c₁) (h : Runs (expect .rparen) c₁ (.ok t) c₂) :
    Runs (closed (loop turn again)) c (.ok []) c₂ :=
  (runs_loop_none hturn).bind (h.bind rfl)

theorem runs_closed_some (hturn : Runs turn c (.ok (some p)) c₁) (h : Runs (closed again) c₁ r c₂) :
    Runs (closed (loop turn again)) c (r.map (p :: ·)) c₂ := by
  rw [closed_loop]
  exact hturn.bind (runs_map h)

theorem runs_closed_error (hturn : Runs turn c (.error e) c₁) : Runs (closed (loop turn again)) c (.error e) c₁ :=
  (runs_loop_error hturn).bind_error

/-! ### Turns -/

theorem runs_memberTurn_symbol {r : Except Fault Pattern} (hkind : c.current.kind = .symbol)
    (h : Runs (Cursor.symbol limit) c r c₁) : Runs (memberTurn limit loops) c (r.map some) c₁ := by
  refine runs_get ?_
  rw [hkind]
  exact runs_map h

theorem runs_memberTurn_command {r : Except Fault Pattern} (hkind : c.current.kind = .identifier)
    (h : Runs (Cursor.command limit loops) c r c₁) : Runs (memberTurn limit loops) c (r.map some) c₁ := by
  refine runs_get ?_
  rw [hkind]
  exact runs_map h

theorem runs_memberTurn_none (hsymbol : c.current.kind ≠ .symbol) (hidentifier : c.current.kind ≠ .identifier) :
    Runs (memberTurn limit loops) c (.ok none) c := by
  refine runs_get ?_
  cases hkind : c.current.kind with
  | symbol => exact absurd hkind hsymbol
  | identifier => exact absurd hkind hidentifier
  | _ => rfl

theorem runs_argumentTurn_none (hkind : c.current.kind = .rparen) :
    Runs (argumentTurn limit loops) c (.ok none) c :=
  runs_get <| runs_if hkind rfl

theorem runs_argumentTurn_error (hkind : c.current.kind ≠ .rparen)
    (h : Runs (Cursor.argument limit loops) c (.error e) c₁) : Runs (argumentTurn limit loops) c (.error e) c₁ :=
  runs_get <| runs_else hkind h.bind_error

/-- An argument is read and what is behind it decides about the turn. -/
theorem runs_argumentTurn {r : Except Fault Unit} (hkind : c.current.kind ≠ .rparen)
    (h : Runs (Cursor.argument limit loops) c (.ok p) c₁) (hseparator : Runs separator c₁ r c₂) :
    Runs (argumentTurn limit loops) c (r.map fun _ => some p) c₂ :=
  runs_get <| runs_else hkind <| h.bind (runs_map hseparator)

end

theorem runs_separator_comma (h : t :: ts <:+ all) (hkind : t.kind = .comma) :
    Runs separator (b.cursor all (t :: ts) depth) (.ok ()) (b.cursor all ts depth) :=
  runs_get <| runs_if hkind <| (runs_take h).bind rfl

theorem runs_separator_rparen (hkind : c.current.kind = .rparen) : Runs separator c (.ok ()) c :=
  runs_get <| runs_else (by simp [hkind]) <| runs_if hkind rfl

theorem runs_separator_error (hcomma : (b.current ts).kind ≠ .comma) (hrparen : (b.current ts).kind ≠ .rparen) :
    Runs separator (b.cursor all ts depth) (.error (b.halt depth ts .missingComma).fault) (b.cursor all ts depth) :=
  runs_get <| runs_else hcomma <| runs_else hrparen runs_fail

/-! ## Rules with loops -/

theorem command_eq (limit : Int) (loops : Loops) :
    Cursor.command limit loops = (do
      let name ← expect .identifier
      let _ ← expect .lparen
      enter limit name
      let args ← closed loops.arguments
      leave
      pure (.command (String.ofList (Text.foldAscii name.value.toList)) args .absent)) := by
  rw [Cursor.command]
  simp only [closed, bind_assoc, pure_bind]

/-- With so many turns the loops come to what the readers come to, where fewer tokens are left. -/
structure LoopsFollow (b : Bounds) (all : List Token) (n : Nat) : Prop where
  members : ∀ (depth : Nat) (ts : List Token), ts <:+ all → ts.length < n →
    Follows b all depth (turns b.maxDepth n).members (b.cursor all ts depth) (readMembers b depth ts)
  arguments : ∀ (depth : Nat) (ts : List Token), ts <:+ all → ts.length < n →
    Follows b all depth (closed (turns b.maxDepth n).arguments) (b.cursor all ts depth) (readArguments b depth ts)

namespace LoopsFollow

variable {n : Nat} (hloops : LoopsFollow b all n) (depth : Nat)
include hloops

theorem sequence (h : t :: ts <:+ all) (hkind : t.kind = .dollar) (hn : ts.length < n) :
    Follows b all depth (Cursor.sequence b.maxDepth (turns b.maxDepth n)) (b.cursor all (t :: ts) depth)
      (readSequence b depth t ts) := by
  rw [readSequence]
  have hleft := (List.suffix_cons t ts).trans h
  by_cases hfull : b.full depth = true
  · rw [if_pos hfull]
    exact .error ((runs_expect h hkind).bind (runs_enter_error hfull).bind_error)
  · rw [if_neg hfull]
    refine Follows.behind (runs_expect h hkind) <| Follows.behind (runs_enter (by simpa using hfull)) ?_
    have hmembers := hloops.members (depth + 1) ts hleft hn
    generalize readMembers b (depth + 1) ts = r at hmembers ⊢
    cases hmembers with
    | error runs => exact .error runs.bind_error
    | @ok ps rest le left runs =>
      cases ps with
      | nil => exact .error (runs.bind <| runs_leave.bind <| runs_if rfl runs_fail)
      | cons p ps => exact .ok left (runs.bind <| runs_leave.bind rfl)

theorem command (h : t :: ts <:+ all) (hkind : t.kind = .identifier) (hn : ts.length < n) :
    Follows b all depth (Cursor.command b.maxDepth (turns b.maxDepth n)) (b.cursor all (t :: ts) depth)
      (readCommand b depth t ts) := by
  rw [command_eq, readCommand.eq_def]
  refine Follows.behind (runs_expect h hkind) ?_
  have hleft := (List.suffix_cons t ts).trans h
  cases ts with
  | nil =>
    have hcurrent : (b.current []).kind ≠ .lparen := nofun
    exact .error (runs_expect_error hcurrent).bind_error
  | cons s rest =>
    have hleft' := (List.suffix_cons s rest).trans hleft
    dsimp only
    by_cases hparen : s.kind = .lparen
    · rw [if_pos hparen]
      refine Follows.behind (runs_expect hleft hparen) ?_
      by_cases hfull : b.full depth = true
      · rw [if_pos hfull]
        exact .error (runs_enter_error hfull).bind_error
      · rw [if_neg hfull]
        refine Follows.behind (runs_enter (by simpa using hfull)) ?_
        have harguments := hloops.arguments (depth + 1) rest hleft' (Nat.lt_of_succ_lt hn)
        generalize readArguments b (depth + 1) rest = r at harguments ⊢
        cases harguments with
        | error runs => exact .error runs.bind_error
        | ok left runs => exact .ok left (runs.bind <| runs_leave.bind rfl)
    · rw [if_neg hparen]
      have hcurrent : (b.current (s :: rest)).kind ≠ .lparen := hparen
      exact .error (runs_expect_error hcurrent).bind_error

theorem argument (h : t :: ts <:+ all) (hn : ts.length < n) :
    Follows b all depth (Cursor.argument b.maxDepth (turns b.maxDepth n)) (b.cursor all (t :: ts) depth)
      (readArgument b depth t ts) := by
  rw [readArgument]
  have hleft := (List.suffix_cons t ts).trans h
  refine Follows.get ?_
  rw [current_cursor_cons, peek?_cursor h]
  cases hkind : t.kind with
  | dollar => exact hloops.sequence depth h hkind hn
  | atSign =>
    refine Follows.behind (runs_take h) ?_
    exact follows_name hleft
  | identifier =>
    simp only [Option.any_some, decide_eq_true_eq]
    by_cases hparen : (b.current ts).kind = .lparen
    · rw [if_pos hparen, if_pos hparen]
      exact hloops.command depth h hkind hn
    · rw [if_neg hparen, if_neg hparen, ← hkind]
      have hsymbol : (b.current (t :: ts)).kind ≠ .symbol := by simp [Bounds.current, hkind]
      exact .error (runs_expect_error hsymbol).bind_error
  | symbol =>
    cases hword : readWord b depth t ts with
    | error e => exact .error (runs_symbol_error h hkind hword)
    | ok p => exact .ok hleft (runs_symbol h hkind hword)
  | number =>
    refine Follows.behind (runs_take h) ?_
    cases hread : readNumber depth t ts with
    | error e => exact .error (runs_number_error hread).bind_error
    | ok n => exact .ok hleft ((runs_number hread).bind rfl)
  | _ => exact .error runs_fail

theorem memberLoop (h : ts <:+ all) (hn : ts.length ≤ n) :
    Follows b all depth (turns b.maxDepth (n + 1)).members (b.cursor all ts depth) (readMembers b depth ts) := by
  rw [turns, readMembers.eq_def]
  cases ts with
  | nil => exact .ok h (runs_loop_none (runs_memberTurn_none nofun nofun))
  | cons t rest =>
    have hleft := (List.suffix_cons t rest).trans h
    dsimp only
    by_cases hsymbol : t.kind = .symbol
    · rw [if_pos hsymbol]
      cases hword : readWord b depth t rest with
      | error e =>
        have runs := runs_symbol_error h hsymbol hword
        exact .error (runs_loop_error (runs_memberTurn_symbol hsymbol runs))
      | ok p =>
        have runs := runs_symbol (b := b) h hsymbol hword
        have hturn : Runs (memberTurn _ (turns b.maxDepth n)) _ _ _ := runs_memberTurn_symbol hsymbol runs
        have hmembers := hloops.members depth rest hleft hn
        generalize readMembers b depth rest = r at hmembers ⊢
        cases hmembers with
        | error runs => exact .error (runs_loop_some hturn runs)
        | ok left runs => exact .ok left (runs_loop_some hturn runs)
    rw [if_neg hsymbol]
    by_cases hidentifier : t.kind = .identifier
    · rw [if_pos hidentifier]
      have hcommand := hloops.command depth h hidentifier hn
      generalize readCommand b depth t rest = r at hcommand ⊢
      cases hcommand with
      | error runs => exact .error (runs_loop_error (runs_memberTurn_command hidentifier runs))
      | @ok p rest' le left runs =>
        have hturn := runs_memberTurn_command hidentifier runs
        have hmembers := hloops.members depth rest' left (Nat.lt_of_le_of_lt le hn)
        dsimp only
        generalize readMembers b depth rest' = r at hmembers ⊢
        cases hmembers with
        | error runs => exact .error (runs_loop_some hturn runs)
        | ok left runs => exact .ok left (runs_loop_some hturn runs)
    · rw [if_neg hidentifier]
      exact .ok h (runs_loop_none (runs_memberTurn_none hsymbol hidentifier))

theorem argumentLoop (h : ts <:+ all) (hn : ts.length ≤ n) :
    Follows b all depth (closed (turns b.maxDepth (n + 1)).arguments) (b.cursor all ts depth)
      (readArguments b depth ts) := by
  rw [turns, readArguments.eq_def]
  cases ts with
  | nil => exact .error (runs_closed_error (runs_argumentTurn_error nofun (runs_get runs_fail)))
  | cons t rest =>
    have hleft := (List.suffix_cons t rest).trans h
    dsimp only
    by_cases hparen : t.kind = .rparen
    · rw [if_pos hparen]
      exact .ok hleft (runs_closed_none (runs_argumentTurn_none hparen) (runs_expect h hparen))
    rw [if_neg hparen]
    have hargument := hloops.argument depth h hn
    generalize readArgument b depth t rest = r at hargument ⊢
    cases hargument with
    | error runs => exact .error (runs_closed_error (runs_argumentTurn_error hparen runs))
    | @ok p mid le left runs =>
      cases mid with
      | nil =>
        have hturn := runs_argumentTurn hparen runs (runs_separator_error nofun nofun)
        exact .error (runs_closed_error hturn)
      | cons s rest' =>
        have hbehind := (List.suffix_cons s rest').trans left
        have hfewer : rest'.length + 1 < n := Nat.lt_of_le_of_lt le hn
        dsimp only
        by_cases hcomma : s.kind = .comma
        · rw [if_pos hcomma]
          have hturn := runs_argumentTurn hparen runs (runs_separator_comma left hcomma)
          have harguments := hloops.arguments depth rest' hbehind (Nat.lt_of_succ_lt hfewer)
          generalize readArguments b depth rest' = r at harguments ⊢
          cases harguments with
          | error runs => exact .error (runs_closed_some hturn runs)
          | ok left runs => exact .ok left (runs_closed_some hturn runs)
        rw [if_neg hcomma]
        by_cases hclose : s.kind = .rparen
        · rw [if_pos hclose]
          have hturn := runs_argumentTurn hparen runs (runs_separator_rparen hclose)
          -- the next turn leaves the loop in front of the parenthesis
          obtain ⟨m, rfl⟩ := Nat.exists_eq_add_one_of_ne_zero (Nat.ne_zero_of_lt hfewer)
          have hlast : Runs (closed (turns b.maxDepth (m + 1)).arguments) (b.cursor all (s :: rest') depth) _ _ :=
            runs_closed_none (runs_argumentTurn_none hclose) (runs_expect left hclose)
          exact .ok hbehind (runs_closed_some hturn hlast)
        · rw [if_neg hclose]
          have hturn := runs_argumentTurn hparen runs (runs_separator_error hcomma hclose)
          exact .error (runs_closed_error hturn)

theorem pattern (h : ts <:+ all) (hn : ts.length ≤ n) :
    Follows b all depth (Cursor.pattern b.maxDepth (turns b.maxDepth n)) (b.cursor all ts depth)
      (readPattern b depth ts) := by
  refine Follows.get ?_
  cases ts with
  | nil => exact .error runs_fail
  | cons t rest =>
    have hleft := (List.suffix_cons t rest).trans h
    rw [current_cursor_cons, readPattern]
    cases hkind : t.kind with
    | dollar =>
      have hsequence := hloops.sequence depth h hkind hn
      dsimp only
      generalize readSequence b depth t rest = r at hsequence ⊢
      cases hsequence with
      | error runs => exact .error runs
      | ok left runs => exact .ok left runs
    | identifier =>
      have hcommand := hloops.command depth h hkind hn
      dsimp only
      generalize readCommand b depth t rest = r at hcommand ⊢
      cases hcommand with
      | error runs => exact .error runs
      | ok left runs => exact .ok left runs
    | symbol =>
      cases hword : readWord b depth t rest with
      | error e => exact .error (runs_symbol_error h hkind hword)
      | ok p => exact .ok hleft (runs_symbol h hkind hword)
    | _ => exact .error runs_fail

end LoopsFollow

/-- **The loops come to what the readers come to**: by the turns, because a turn that goes on has taken a token. -/
theorem loopsFollow (b : Bounds) (all : List Token) (n : Nat) : LoopsFollow b all n := by
  induction n with
  | zero => exact ⟨fun _ _ _ hn => absurd hn (Nat.not_lt_zero _), fun _ _ _ hn => absurd hn (Nat.not_lt_zero _)⟩
  | succ n ih =>
    exact ⟨fun depth _ h hn => ih.memberLoop depth h (Nat.le_of_lt_succ hn),
      fun depth _ h hn => ih.argumentLoop depth h (Nat.le_of_lt_succ hn)⟩

/-! ## Runs -/

theorem decide_current_ne_eof (hall : ∀ t ∈ all, t.kind ≠ .eof) (h : rest <:+ all) :
    decide ((b.cursor all rest depth).current.kind ≠ .eof) = !rest.isEmpty := by
  cases rest with
  | nil => rfl
  | cons t ts => exact decide_eq_true (hall t (h.subset List.mem_cons_self))

/-- The cursor of a reader of `all`. -/
def Reader.cursor (r : Reader) (all : List Token) : Cursor := r.bounds.cursor all r.rest r.depth

/-- **A run with a cursor is the run of a reader**: it gives the same, and the reader goes on where the cursor is. -/
theorem runs_topLevel (r : Reader) (hall : ∀ t ∈ all, t.kind ≠ .eof) (h : r.rest <:+ all) (trailing : Bool) {n : Nat}
    (hn : r.rest.length ≤ n) :
    Runs (Rule.call r.bounds.maxDepth n (.topLevel trailing)) (r.cursor all) (r.run trailing).1
      ((r.run trailing).2.cursor all) := by
  rw [Reader.run, readTopLevel]
  have hpattern := (loopsFollow r.bounds all n).pattern r.depth h hn
  generalize readPattern r.bounds r.depth r.rest = read at hpattern ⊢
  cases hpattern with
  | error runs => exact runs.bind_error
  | @ok p mid _ left runs =>
    refine runs.bind ?_
    have hcount : Follows r.bounds all r.depth _ _ (readCount r.bounds r.depth p mid) := follows_elementCount p left
    dsimp only
    generalize readCount r.bounds r.depth p mid = read at hcount ⊢
    cases hcount with
    | error runs => exact runs.bind_error
    | @ok p rest _ left runs =>
      refine runs.bind <| runs_get ?_
      rw [decide_current_ne_eof hall left]
      by_cases hmore : (!rest.isEmpty && !trailing) = true
      · simp only [if_pos hmore]
        exact runs_fail
      · simp only [if_neg hmore]
        rfl

/-- **Reading a text is a run with a cursor** over all of its tokens, from the first one on and in no level. -/
theorem runs_parse (s : Settings) (source : String) :
    ∃ c c' : Cursor, c.tokens = Token.tokenize source ∧ c.pos = 0 ∧ c.depth = 0 ∧ c.Placed ∧
      ∀ n, c.left ≤ n → Runs (Rule.call s.maxDepth n (.topLevel s.trailing)) c (parse s source) c' := by
  let r := Reader.ofSource s.maxDepth source
  have hall : ∀ t ∈ r.rest, t.kind ≠ .eof := fun t ht => Token.kind_ne_eof_of_mem_scan ht
  let r' := (r.run s.trailing).2
  have hself := List.suffix_refl r.rest
  refine ⟨r.cursor r.rest, r'.cursor r.rest, rfl, Nat.sub_self _, rfl, placed_cursor hself, fun n hn => ?_⟩
  have hleft : r.rest.length ≤ n := by
    simp only [left, Reader.cursor, Bounds.cursor, List.length_append, Nat.sub_self] at hn
    omega
  exact runs_topLevel r hall hself s.trailing hleft

end Rosette.Pattern
