import Rosette.Pattern.Cursor

/-!
# Every rule ends

A rule that is called with a cursor on some token ends, with as many turns of its loops as there are tokens left, and
more turns change nothing (`Terminates`). It leaves the cursor on a token of the same list, never before the one where
it was called and never behind the end of the input (`Onward`); and if it succeeds it has taken a token. The loops in a
rule begin only behind a token that was taken, so that fewer are left (`loopsEnd`); and a loop that takes another turn
has taken a token in the last one. The loop over the arguments, which only a parenthesis ends, is left at the end of the
input because no argument begins there.

Main result: `terminates_rules`.
-/

namespace Rosette.Pattern.Cursor

variable {α β : Type} {c c' c₁ c₂ : Cursor} {limit : Int} {k : Nat} {Q R : α → Cursor → Prop}

/-! ## Places -/

/-- A cursor is on a token of a list that ends in the end of the input. -/
structure Placed (c : Cursor) : Prop where
  current : c.tokens[c.pos]? = some c.current
  last : ∃ body stop, c.tokens = body ++ [stop] ∧ stop.kind = .eof

/-- A cursor has moved on: it is on a token of the same list, not before the one where it was, and the end of the
input is not among the tokens that it has passed. -/
structure Onward (c c' : Cursor) : Prop where
  tokens : c'.tokens = c.tokens
  current : c'.tokens[c'.pos]? = some c'.current
  le : c.pos ≤ c'.pos
  passed : ∀ i t, c.pos ≤ i → i < c'.pos → c.tokens[i]? = some t → t.kind ≠ .eof

/-- How many tokens are left, the current one included. -/
def left (c : Cursor) : Nat := c.tokens.length - c.pos

theorem Placed.pos_lt (h : c.Placed) : c.pos < c.tokens.length := (List.getElem?_eq_some_iff.1 h.current).1

theorem Placed.left_pos (h : c.Placed) : 0 < c.left := Nat.sub_pos_of_lt h.pos_lt

theorem Placed.onward (h : c.Placed) (h' : c.Onward c') : c'.Placed := ⟨h'.current, h'.tokens ▸ h.last⟩

theorem Placed.self (h : c.Placed) : c.Onward c := ⟨rfl, h.current, Nat.le_refl _, fun _ _ _ _ _ => by omega⟩

theorem Onward.trans (h : c.Onward c₁) (h' : c₁.Onward c₂) : c.Onward c₂ where
  tokens := h'.tokens.trans h.tokens
  current := h'.current
  le := Nat.le_trans h.le h'.le
  passed := fun i t hle hlt ht => by
    by_cases hi : i < c₁.pos
    · exact h.passed i t hle hi ht
    · exact h'.passed i t (by omega) hlt (h.tokens ▸ ht)

theorem Onward.left_lt (h : c.Onward c') (hc : c.Placed) (hlt : c.pos < c'.pos) : c'.left < c.left := by
  have hpos := hc.pos_lt
  rw [left, left, h.tokens]
  omega

theorem Onward.left_le (h : c.Onward c') : c'.left ≤ c.left := by
  have hle := h.le
  rw [left, left, h.tokens]
  omega

theorem Onward.withDepth (h : c.Placed) (depth : Nat) : c.Onward { c with depth } :=
  ⟨rfl, h.current, Nat.le_refl _, h.self.passed⟩

/-- Something is behind a token that is not the end of the input, and the cursor gets there. -/
theorem Placed.advance (h : c.Placed) (hkind : c.current.kind ≠ .eof) :
    c.Onward c.advance ∧ c.advance.pos = c.pos + 1 := by
  have hnext : c.pos + 1 < c.tokens.length := Nat.lt_of_not_le fun hle => by
    obtain ⟨body, stop, htokens, hstop⟩ := h.last
    have hpos := h.pos_lt
    have hcurrent := h.current
    rw [htokens, List.length_append, List.length_singleton] at hpos hle
    rw [htokens, show c.pos = body.length by omega, List.getElem?_concat_length, Option.some.injEq] at hcurrent
    exact hkind (hcurrent ▸ hstop)
  rw [advance_of_peek? (List.getElem?_eq_getElem hnext)]
  refine ⟨⟨rfl, List.getElem?_eq_getElem hnext, Nat.le_succ _, fun i t hle hlt ht => ?_⟩, rfl⟩
  obtain rfl : i = c.pos := by
    dsimp only at hlt
    omega
  rw [h.current, Option.some.injEq] at ht
  exact ht ▸ hkind

/-! ## Computations that end -/

/-- A computation that is called with `c` ends with an outcome and with `c'`. -/
def Runs (x : Moving α) (c : Cursor) (r : Except Fault α) (c' : Cursor) : Prop := x.run.run c = some (r, c')

/-- A computation that is called with `c`, and given `k` turns or more, ends with the cursor moved on, and if it
succeeds with such a value and cursor. How many turns it was given makes no difference. -/
def Terminates (k : Nat) (x : Nat → Moving α) (c : Cursor) (Q : α → Cursor → Prop) : Prop :=
  ∃ r c', (∀ n, k ≤ n → Runs (x n) c r c') ∧ c.Onward c' ∧ ∀ a, r = .ok a → Q a c'

theorem Runs.bind {x : Moving α} {f : α → Moving β} {a : α} {r : Except Fault β} (hx : Runs x c (.ok a) c₁)
    (hf : Runs (f a) c₁ r c₂) : Runs (x >>= f) c r c₂ := by
  unfold Runs at *
  rw [ExceptT.run_bind, StateT.run_bind, hx]
  exact hf

theorem Runs.bind_error {x : Moving α} {f : α → Moving β} {e : Fault} (hx : Runs x c (.error e) c') :
    Runs (x >>= f) c (.error e) c' := by
  unfold Runs at *
  rw [ExceptT.run_bind, StateT.run_bind, hx]
  rfl

section
variable {x y : Nat → Moving α}

theorem Terminates.bind {f : α → Nat → Moving β} {R : β → Cursor → Prop} (hx : Terminates k x c Q)
    (hf : ∀ a c', c.Onward c' → Q a c' → Terminates k (f a) c' R) : Terminates k (fun n => x n >>= (f · n)) c R := by
  obtain ⟨r, c', hrun, hon, hQ⟩ := hx
  cases r with
  | ok a =>
    obtain ⟨r, c'', hrun', hon', hR⟩ := hf a c' hon (hQ a rfl)
    exact ⟨r, c'', fun n hn => (hrun n hn).bind (hrun' n hn), hon.trans hon', hR⟩
  | error e => exact ⟨.error e, c', fun n hn => (hrun n hn).bind_error, hon, fun a h => nomatch h⟩

theorem Terminates.imp (h : Terminates k x c Q) (hR : ∀ a c', c.Onward c' → Q a c' → R a c') : Terminates k x c R := by
  obtain ⟨r, c', hrun, hon, hQ⟩ := h
  exact ⟨r, c', hrun, hon, fun a ha => hR a c' hon (hQ a ha)⟩

/-- What ends behind a token ends behind it. -/
theorem Terminates.behind (h : Terminates k x c₁ Q) (hlt : c.pos < c₁.pos) :
    Terminates k x c₁ fun _ c' => c.pos < c'.pos :=
  h.imp fun _ _ hon _ => Nat.lt_of_lt_of_le hlt hon.le

theorem Terminates.succ (h : Terminates k (fun n => x (n + 1)) c Q) : Terminates (k + 1) x c Q := by
  obtain ⟨r, c', hrun, hon, hQ⟩ := h
  refine ⟨r, c', fun n hn => ?_, hon, hQ⟩
  cases n with
  | zero => omega
  | succ n => exact hrun n (by omega)

theorem terminates_pure (h : c.Placed) {a : α} (hQ : Q a c) : Terminates k (fun _ => pure a) c Q :=
  ⟨.ok a, c, fun _ _ => rfl, h.self, fun _ ha => Except.ok.inj ha ▸ hQ⟩

theorem terminates_throw (h : c.Placed) {f : Fault} : Terminates k (fun _ => throw f) c Q :=
  ⟨.error f, c, fun _ _ => rfl, h.self, fun _ ha => nomatch ha⟩

theorem terminates_fail (h : c.Placed) {cause : Cause} : Terminates k (fun _ => fail cause) c Q := terminates_throw h

theorem terminates_get {f : Cursor → Nat → Moving α} (h : Terminates k (f c) c Q) :
    Terminates k (fun n => get >>= (f · n)) c Q := h

theorem terminates_ite {p : Prop} [Decidable p] (hx : p → Terminates k x c Q) (hy : ¬ p → Terminates k y c Q) :
    Terminates k (fun n => if p then x n else y n) c Q := by
  split
  · exact hx ‹_›
  · exact hy ‹_›

end

/-! ## Steps -/

theorem terminates_take (h : c.Placed) (hkind : c.current.kind ≠ .eof) :
    Terminates k (fun _ => take) c fun _ c' => c.pos < c'.pos := by
  obtain ⟨hon, hpos⟩ := h.advance hkind
  exact ⟨.ok c.current, c.advance, fun _ _ => rfl, hon, fun _ _ => by omega⟩

theorem terminates_expect (h : c.Placed) {kind : Token.Kind} (hkind : kind ≠ .eof) :
    Terminates k (fun _ => expect kind) c fun _ c' => c.pos < c'.pos :=
  terminates_get <| terminates_ite (fun heq => terminates_take h (heq ▸ hkind)) fun _ => terminates_fail h

theorem terminates_enter (h : c.Placed) {t : Token} : Terminates k (fun _ => enter limit t) c fun _ _ => True := by
  have hentered := Onward.withDepth h (c.depth + 1)
  refine Terminates.bind (Q := fun _ _ => True) ⟨.ok (), _, fun _ _ => rfl, hentered, fun _ _ => trivial⟩ ?_
  intro _ c' hon _
  have h' := h.onward hon
  exact terminates_get <| terminates_ite (fun _ => terminates_throw h') fun _ => terminates_pure h' trivial

theorem terminates_leave (h : c.Placed) : Terminates k (fun _ => leave) c fun _ _ => True :=
  ⟨.ok (), _, fun _ _ => rfl, Onward.withDepth h _, fun _ _ => trivial⟩

theorem terminates_number (h : c.Placed) {t : Token} : Terminates k (fun _ => number t) c fun _ _ => True := by
  unfold number
  split
  · exact terminates_throw h
  · exact terminates_pure h trivial

/-! ## Rules without loops -/

theorem terminates_symbol (h : c.Placed) : Terminates k (fun _ => symbol limit) c fun _ c' => c.pos < c'.pos := by
  refine (terminates_expect h (by decide)).bind fun t c₁ hon hlt => ?_
  have h₁ := h.onward hon
  refine Terminates.behind (Q := fun _ _ => True) ?_ hlt
  split
  · exact terminates_throw h₁
  · refine terminates_ite (fun _ => ?_) fun _ => terminates_pure h₁ trivial
    refine (terminates_enter h₁).bind fun _ c₂ hon₂ _ => ?_
    have h₂ := h₁.onward hon₂
    exact (terminates_leave h₂).bind fun _ c₃ hon₃ _ => terminates_pure (h₂.onward hon₃) trivial

theorem terminates_name (h : c.Placed) : Terminates k (fun _ => name) c fun _ _ => True := by
  refine terminates_get <| terminates_ite (fun hkind => ?_) fun _ => terminates_fail h
  have hne : c.current.kind ≠ .eof := by
    intro heof
    simp [heof] at hkind
  exact (terminates_take h hne).bind fun t c' hon _ => terminates_pure (h.onward hon) trivial

theorem terminates_separator (h : c.Placed) : Terminates k (fun _ => separator) c fun _ _ => True := by
  refine terminates_get <| terminates_ite (fun hkind => ?_) fun _ => ?_
  · exact (terminates_take h (by simp [hkind])).bind fun t c' hon _ => terminates_pure (h.onward hon) trivial
  · exact terminates_ite (fun _ => terminates_pure h trivial) fun _ => terminates_fail h

theorem terminates_elementCount (h : c.Placed) {p : Pattern} :
    Terminates k (fun _ => elementCount p) c fun _ _ => True := by
  refine terminates_get <| terminates_ite (fun hkind => ?_) fun _ => terminates_pure h trivial
  refine (terminates_take h (by simp [hkind])).bind fun _ c₁ hon₁ _ => ?_
  have h₁ := h.onward hon₁
  refine (terminates_expect h₁ (by decide)).bind fun t c₂ hon₂ _ => ?_
  have h₂ := h₁.onward hon₂
  exact (terminates_number h₂).bind fun n c₃ hon₃ _ => terminates_pure (h₂.onward hon₃) trivial

/-! ## Rules with loops -/

/-- With so many turns the loops end from where no more tokens are left. -/
structure LoopsEnd (limit : Int) (k : Nat) : Prop where
  members : ∀ c : Cursor, c.Placed → c.left ≤ k → Terminates k (fun n => (turns limit n).members) c fun _ _ => True
  arguments : ∀ c : Cursor, c.Placed → c.left ≤ k → Terminates k (fun n => (turns limit n).arguments) c fun _ _ => True

namespace LoopsEnd

theorem sequence (hloops : LoopsEnd limit k) (h : c.Placed) (hk : c.left ≤ k + 1) :
    Terminates k (fun n => sequence limit (turns limit n)) c fun _ c' => c.pos < c'.pos := by
  refine (terminates_expect h (by decide)).bind fun t c₁ hon hlt => ?_
  have h₁ := h.onward hon
  have hfewer := hon.left_lt h hlt
  refine Terminates.behind (Q := fun _ _ => True) ?_ hlt
  refine (terminates_enter h₁).bind fun _ c₂ hon₂ _ => ?_
  have h₂ := h₁.onward hon₂
  have hle := hon₂.left_le
  refine (hloops.members c₂ h₂ (by omega)).bind fun ps c₃ hon₃ _ => ?_
  have h₃ := h₂.onward hon₃
  refine (terminates_leave h₃).bind fun _ c₄ hon₄ _ => ?_
  have h₄ := h₃.onward hon₄
  exact terminates_ite (fun _ => terminates_fail h₄) fun _ => terminates_pure h₄ trivial

theorem command (hloops : LoopsEnd limit k) (h : c.Placed) (hk : c.left ≤ k + 1) :
    Terminates k (fun n => command limit (turns limit n)) c fun _ c' => c.pos < c'.pos := by
  refine (terminates_expect h (by decide)).bind fun t c₁ hon hlt => ?_
  have h₁ := h.onward hon
  have hfewer := hon.left_lt h hlt
  refine Terminates.behind (Q := fun _ _ => True) ?_ hlt
  refine (terminates_expect h₁ (by decide)).bind fun _ c₂ hon₂ _ => ?_
  have h₂ := h₁.onward hon₂
  refine (terminates_enter h₂).bind fun _ c₃ hon₃ _ => ?_
  have h₃ := h₂.onward hon₃
  have hle := (hon₂.trans hon₃).left_le
  refine (hloops.arguments c₃ h₃ (by omega)).bind fun args c₄ hon₄ _ => ?_
  have h₄ := h₃.onward hon₄
  refine (terminates_expect h₄ (by decide)).bind fun _ c₅ hon₅ _ => ?_
  have h₅ := h₄.onward hon₅
  exact (terminates_leave h₅).bind fun _ c₆ hon₆ _ => terminates_pure (h₅.onward hon₆) trivial

theorem argument (hloops : LoopsEnd limit k) (h : c.Placed) (hk : c.left ≤ k + 1) :
    Terminates k (fun n => argument limit (turns limit n)) c fun _ c' => c.pos < c'.pos := by
  refine terminates_get ?_
  cases hkind : c.current.kind with
  | dollar => exact hloops.sequence h hk
  | atSign =>
    refine (terminates_take h (by simp [hkind])).bind fun _ c₁ hon hlt => ?_
    exact (terminates_name (h.onward hon)).behind hlt
  | identifier => exact terminates_ite (fun _ => hloops.command h hk) fun _ => terminates_symbol h
  | symbol => exact terminates_symbol h
  | number =>
    refine (terminates_take h (by simp [hkind])).bind fun t c₁ hon hlt => ?_
    have h₁ := h.onward hon
    refine Terminates.behind (Q := fun _ _ => True) ?_ hlt
    exact (terminates_number h₁).bind fun n c₂ hon₂ _ => terminates_pure (h₁.onward hon₂) trivial
  | _ => exact terminates_fail h

/-- A turn that goes on has read a member. -/
theorem memberTurn (hloops : LoopsEnd limit k) (h : c.Placed) (hk : c.left ≤ k + 1) :
    Terminates k (fun n => memberTurn limit (turns limit n)) c fun p c' => p.isSome = true → c.pos < c'.pos := by
  refine terminates_get ?_
  cases c.current.kind with
  | symbol => exact (terminates_symbol h).bind fun p c' hon hlt => terminates_pure (h.onward hon) fun _ => hlt
  | identifier => exact (hloops.command h hk).bind fun p c' hon hlt => terminates_pure (h.onward hon) fun _ => hlt
  | _ => exact terminates_pure h fun hp => by cases hp

/-- A turn that goes on has read an argument, and may have read a comma. -/
theorem argumentTurn (hloops : LoopsEnd limit k) (h : c.Placed) (hk : c.left ≤ k + 1) :
    Terminates k (fun n => argumentTurn limit (turns limit n)) c fun p c' => p.isSome = true → c.pos < c'.pos := by
  refine terminates_get <| terminates_ite (fun _ => terminates_pure h fun hp => by cases hp) fun _ => ?_
  refine (hloops.argument h hk).bind fun p c₁ hon hlt => ?_
  have h₁ := h.onward hon
  refine (terminates_separator h₁).bind fun _ c₂ hon₂ _ => terminates_pure (h₁.onward hon₂) fun _ => ?_
  exact Nat.lt_of_lt_of_le hlt hon₂.le

theorem pattern (hloops : LoopsEnd limit k) (h : c.Placed) (hk : c.left ≤ k + 1) :
    Terminates k (fun n => pattern limit (turns limit n)) c fun _ c' => c.pos < c'.pos := by
  refine terminates_get ?_
  cases c.current.kind with
  | dollar => exact hloops.sequence h hk
  | identifier => exact hloops.command h hk
  | symbol => exact terminates_symbol h
  | _ => exact terminates_fail h

theorem topLevel (hloops : LoopsEnd limit k) (h : c.Placed) (hk : c.left ≤ k + 1) {trailing : Bool} :
    Terminates k (fun n => topLevel limit (turns limit n) trailing) c fun _ c' => c.pos < c'.pos := by
  refine (hloops.pattern h hk).bind fun p c₁ hon₁ hlt => ?_
  have h₁ := h.onward hon₁
  refine Terminates.behind (Q := fun _ _ => True) ?_ hlt
  refine (terminates_elementCount h₁).bind fun p c₂ hon₂ _ => ?_
  have h₂ := h₁.onward hon₂
  exact terminates_get <| terminates_ite (fun _ => terminates_fail h₂) fun _ => terminates_pure h₂ trivial

end LoopsEnd

/-- A loop ends if its turn ends, a turn that goes on takes a token, and what is behind it ends where fewer are left. -/
theorem terminates_loop {turn : Nat → Moving (Option Pattern)} {again : Nat → Moving (List Pattern)} (h : c.Placed)
    (hturn : Terminates k turn c fun p c' => p.isSome = true → c.pos < c'.pos)
    (hagain : ∀ c', c'.Placed → c'.left < c.left → Terminates k again c' fun _ _ => True) :
    Terminates k (fun n => loop (turn n) (again n)) c fun _ _ => True := by
  refine hturn.bind fun p c' hon htaken => ?_
  have h' := h.onward hon
  cases p with
  | none => exact terminates_pure h' trivial
  | some p =>
    have hfewer := hon.left_lt h (htaken rfl)
    exact (hagain c' h' hfewer).bind fun ps c'' hon' _ => terminates_pure (h'.onward hon') trivial

/-- **The loops end**: by the number of tokens that are left, because whatever calls them has taken one. -/
theorem loopsEnd (limit : Int) (k : Nat) : LoopsEnd limit k := by
  induction k with
  | zero =>
    exact ⟨fun c h hk => absurd h.left_pos (Nat.not_lt.2 hk), fun c h hk => absurd h.left_pos (Nat.not_lt.2 hk)⟩
  | succ k ih =>
    constructor
    · intro c h hk
      refine Terminates.succ <| terminates_loop h (ih.memberTurn h hk) fun c' h' hfewer => ?_
      exact ih.members c' h' (by omega)
    · intro c h hk
      refine Terminates.succ <| terminates_loop h (ih.argumentTurn h hk) fun c' h' hfewer => ?_
      exact ih.arguments c' h' (by omega)

/-! ## Calls -/

theorem terminates_call (h : c.Placed) (limit : Int) (rule : Rule) :
    Terminates c.left (fun n => rule.call limit n) c fun _ c' => c.pos < c'.pos := by
  have hloops := loopsEnd limit c.left
  have hle : c.left ≤ c.left + 1 := Nat.le_succ _
  cases rule with
  | symbol => exact terminates_symbol h
  | sequence => exact hloops.sequence h hle
  | command => exact hloops.command h hle
  | argument => exact hloops.argument h hle
  | pattern => exact hloops.pattern h hle
  | topLevel trailing => exact hloops.topLevel h hle

/-- **Every rule ends, and not where it began.** From any token of a list that ends in the end of the input, and in
however many levels, each rule that is called ends, with as many turns as there are tokens left. It leaves the cursor on
a token of the list, not before the one where it was called and not behind the end of the input, and further on if it
succeeds. A turn of a loop takes a token or leaves the loop. The cursor moves by one token and stays at the last one. -/
theorem terminates_rules (h : c.Placed) (limit : Int) :
    (∀ rule : Rule, Terminates c.left (fun n => rule.call limit n) c fun _ c' => c.pos < c'.pos) ∧
      (Terminates c.left (fun n => memberTurn limit (turns limit n)) c fun p c' => p.isSome = true → c.pos < c'.pos) ∧
      (Terminates c.left (fun n => argumentTurn limit (turns limit n)) c fun p c' => p.isSome = true → c.pos < c'.pos) ∧
      (c.current.kind ≠ .eof → c.Onward c.advance ∧ c.advance.pos = c.pos + 1) ∧
      (c.pos + 1 = c.tokens.length → c.advance = c) := by
  have hloops := loopsEnd limit c.left
  have hle : c.left ≤ c.left + 1 := Nat.le_succ _
  exact ⟨terminates_call h limit, hloops.memberTurn h hle, hloops.argumentTurn h hle, h.advance,
    fun hlast => dif_neg (by omega)⟩

/-- A command that is not closed, called in the third level where four are allowed. -/
theorem terminates_rules_unclosed :
    let seq : Token := ⟨.identifier, "seq", ⟨1, 2, 1⟩⟩
    let c : Cursor := ⟨[⟨.comma, ",", ⟨1, 1, 0⟩⟩, seq, ⟨.lparen, "(", ⟨1, 5, 4⟩⟩, ⟨.symbol, "d", ⟨1, 6, 5⟩⟩,
      ⟨.comma, ",", ⟨1, 7, 6⟩⟩, .endAt ⟨1, 8, 7⟩], 1, seq, 2⟩
    c.Placed ∧ (Terminates 5 (fun n => command 4 (turns 4 n)) c fun _ c' => 1 < c'.pos) ∧
      (Terminates 5 (fun n => memberTurn 4 (turns 4 n)) c fun p c' => p.isSome = true → 1 < c'.pos) ∧
      (Terminates 5 (fun n => argumentTurn 4 (turns 4 n)) c fun p c' => p.isSome = true → 1 < c'.pos) ∧
      c.Onward c.advance ∧ c.advance.pos = 2 := by
  intro seq c
  have hplaced : c.Placed := ⟨rfl, c.tokens.dropLast, _, rfl, rfl⟩
  obtain ⟨hrules, hmember, hargument, hadvance, -⟩ := terminates_rules hplaced 4
  exact ⟨hplaced, hrules .command, hmember, hargument, hadvance (by decide)⟩

end Rosette.Pattern.Cursor
