import Rosette.Proofs.Pattern.Failure
import Rosette.Proofs.Pattern.Locality
import Rosette.Proofs.Pattern.Spelling

/-!
# The token at which a run fails

A run that fails points at the first token with which no pattern can go on. What stands before it can be completed to a
pattern (`Completes`), and no tokens that begin with it are taken (`Takes`). There is one exception: a name in the place
of an argument is pointed at itself where the fault is that no parenthesis follows it (`Stray`).

Each place where a rule gives up is one step (`breaks_here`); a rule that fails because a part of it fails hands on
where that part broke (`Breaks.after`). Main result: `breaks_topLevel`.
-/

namespace Rosette.Pattern

variable {b : Bounds} {depth d : Nat} {n m : Nonterminal} {front used ts rest : List Token} {t : Token} {h : Halt}
  {p : Pattern} {cause : Cause}

/-! ## Completions -/

namespace Filler

def letter : Token := ⟨.symbol, "d", .start⟩
def number : Token := ⟨.number, "3", .start⟩
def dollar : Token := ⟨.dollar, "$", .start⟩
def name : Token := ⟨.identifier, "seq", .start⟩
def opening : Token := ⟨.lparen, "(", .start⟩
def closing : Token := ⟨.rparen, ")", .start⟩

end Filler

/-- Tokens of which every beginning of a pattern has a completion. Their places do not matter. -/
def fillers : List Token :=
  [Filler.letter, Filler.number, Filler.dollar, Filler.name, Filler.opening, Filler.closing]

/-- Whether tokens are a whole part of a pattern. The members are those of a sequence, which has one at least, and the
arguments have the parenthesis of their call behind them. -/
def Completes : Nonterminal → List Token → Prop
  | .members, ts => ∃ p ps, Derives .members ts (p :: ps)
  | .arguments, ts => ∃ us closing ps, ts = us ++ [closing] ∧ closing.kind = .rparen ∧ Derives .arguments us ps
  | n, ts => ∃ p, Derives n ts [p]

theorem derives_letter : Derives .symbol [Filler.letter] [.symbol "d" false .absent] :=
  .symbol rfl (by with_unfolding_all rfl)

theorem derives_sequence (ht : t.kind = .dollar) :
    Derives .sequence [t, Filler.letter] [.sequence [.symbol "d" false .absent] .absent] :=
  @Derives.sequence t [Filler.letter] [] _ _ ht (.memberSymbol derives_letter) .noMembers

theorem derives_call (ht : t.kind = .identifier) :
    Derives .command [t, Filler.opening, Filler.closing]
      [.command (String.ofList (Text.foldAscii t.value.toList)) [] .absent] :=
  @Derives.command t _ _ [] [] ht rfl rfl .noArguments

/-! ## Where a rule breaks -/

/-- Whether the rule of a part of a pattern succeeds. A whole pattern has nothing behind it. -/
def Takes (b : Bounds) (depth : Nat) : Nonterminal → List Token → Prop
  | .sequence, t :: us => ∃ p rest, Reads (readSequence b depth t us) p rest
  | .members, ts => ∃ ps rest, Reads (readMembers b depth ts) ps rest
  | .command, t :: us => ∃ p rest, Reads (readCommand b depth t us) p rest
  | .arguments, ts => ∃ ps rest, Reads (readArguments b depth ts) ps rest
  | .argument, t :: us => ∃ p rest, Reads (readArgument b depth t us) p rest
  | .pattern, ts => ∃ p rest, Reads (readPattern b depth ts) p rest
  | .topLevel, ts => ∃ p rest, readTopLevel b false depth ts = .ok (p, rest)
  | _, _ => False

/-- An argument may begin behind some tokens. -/
def AtArgument (front : List Token) : Prop := ∃ s ∈ front.getLast?, s.kind = .lparen ∨ s.kind = .comma

/-- A name in the place of an argument, behind `front`, that no parenthesis follows. -/
def Stray (front behind : List Token) : Prop :=
  AtArgument front ∧ ∃ name us, behind = name :: us ∧ name.kind = .identifier ∧ ∀ s ∈ us.head?, s.kind ≠ .lparen

/-- The rule of `n` breaks between `before` and `behind`, at the place `l`: what stands before has a completion, and
with the token behind, or two for a stray name, it is not taken. -/
structure Breaks (b : Bounds) (depth : Nat) (n : Nonterminal) (front before behind : List Token) (l : Location) :
    Prop where
  place : l = (b.current behind).location
  completes : ∃ more ⊆ fillers, Completes n (before ++ more)
  refuses : ∃ seen, (seen = 1 ∨ seen = 2 ∧ Stray (front ++ before) behind) ∧
    ∀ us, us.take seen = behind.take seen → ¬ Takes b depth n (before ++ us)

/-- A failure over the tokens `ts` that is no unread number is where the rule of `n` breaks. -/
def Halt.BreaksOff (h : Halt) (b : Bounds) (depth : Nat) (n : Nonterminal) (front ts : List Token) : Prop :=
  ∀ p, h.fault = .problem p → ∃ before behind, ts = before ++ behind ∧ Breaks b depth n front before behind p.location

theorem head?_of_take {α : Type} {xs ys : List α} {seen : Nat} (hseen : seen = 1 ∨ seen = 2)
    (h : xs.take seen = ys.take seen) : xs.head? = ys.head? := by
  have hhead := congrArg List.head? h
  rw [List.head?_take, List.head?_take] at hhead
  rcases hseen with rfl | rfl <;> exact hhead

/-- A rule gives up at the token it is at, whatever stands behind that one. -/
theorem breaks_here (used more : List Token) (hfault : h.fault = .problem ⟨cause, (b.current ts).location⟩)
    (hmore : more ⊆ fillers) (hcompletes : Completes n (used ++ more))
    (htakes : ∀ us, us.head? = ts.head? → ¬ Takes b depth n (used ++ us)) :
    h.BreaksOff b depth n front (used ++ ts) := by
  intro p hp
  rw [hfault] at hp
  cases hp
  exact ⟨used, ts, rfl, rfl, ⟨more, hmore, hcompletes⟩, 1, .inl rfl,
    fun us hus => htakes us (head?_of_take (.inl rfl) hus)⟩

/-- The same at the first token of a rule. -/
theorem breaks_token (more : List Token) (hfault : h.fault = .problem ⟨cause, t.location⟩) (hmore : more ⊆ fillers)
    (hcompletes : Completes n more) (htakes : ∀ us, ¬ Takes b depth n (t :: us)) :
    h.BreaksOff b depth n front (t :: ts) := by
  refine breaks_here [] more hfault hmore hcompletes fun us hus => ?_
  obtain ⟨vs, rfl⟩ : ∃ vs, us = t :: vs := List.head?_eq_some_iff.1 hus
  exact htakes vs

/-- The same at a word that is too deep. -/
theorem breaks_word {vs : List Token} (hw : readWord b depth t vs = .error h) (hcompletes : Completes n [Filler.letter])
    (htakes : ∀ us, Takes b depth n (t :: us) → ∃ q, ofWord t.value.toList = .ok q ∧ Fits b.maxDepth depth q.nesting) :
    h.BreaksOff b depth n front (t :: ts) := by
  have hno : ∀ q, ¬ (ofWord t.value.toList = .ok q ∧ Fits b.maxDepth depth q.nesting) := by
    intro q hq
    rw [(readWord_eq_ok vs).2 hq] at hw
    cases hw
  unfold readWord at hw
  split at hw
  · cases hw
    rintro p ⟨⟩
  · split at hw
    · cases hw
      exact breaks_token _ rfl (by simp [fillers]) hcompletes fun us hus => (htakes us hus).elim hno
    · cases hw

/-- A rule breaks where a part of it breaks, behind what it has taken. -/
theorem Halt.BreaksOff.after (used : List Token) (hh : h.BreaksOff b d m (front ++ used) ts)
    (hcompletes : ∀ us, Completes m us → ∃ more ⊆ fillers, Completes n (used ++ (us ++ more)))
    (htakes : ∀ us, us.head? = ts.head? → Takes b depth n (used ++ us) → Takes b d m us) :
    h.BreaksOff b depth n front (used ++ ts) := by
  intro p hp
  obtain ⟨before, behind, rfl, place, ⟨more, hmore, hc⟩, seen, hseen, hrefuses⟩ := hh p hp
  obtain ⟨more', hmore', hc'⟩ := hcompletes _ hc
  refine ⟨used ++ before, behind, by simp, place, ⟨more ++ more', by simp [hmore, hmore'], ?_⟩, seen, ?_,
    fun us hus htaken => hrefuses us hus (htakes _ ?_ ?_)⟩
  · rwa [List.append_assoc, ← List.append_assoc before]
  · rwa [← List.append_assoc]
  · rw [List.head?_append, List.head?_append, head?_of_take (hseen.imp_right And.left) hus]
  · rwa [← List.append_assoc]

/-- The same for a part that is the whole of what the rule takes. -/
theorem Halt.BreaksOff.imp (hh : h.BreaksOff b d m front (t :: ts)) (hcompletes : ∀ us, Completes m us → Completes n us)
    (htakes : ∀ us, Takes b depth n (t :: us) → Takes b d m (t :: us)) : h.BreaksOff b depth n front (t :: ts) := by
  refine Halt.BreaksOff.after [] (by rwa [List.append_nil])
    (fun us hus => ⟨[], List.nil_subset _, by simpa using hcompletes us hus⟩) fun us hus => ?_
  obtain ⟨vs, rfl⟩ : ∃ vs, us = t :: vs := List.head?_eq_some_iff.1 hus
  exact htakes vs

/-- What a rule has taken it takes in front of any tokens that begin as those behind it. -/
theorem Stays.taken {run : Bounds → Nat → (ts : List Token) → Except Halt (Parsed Pattern ts)} {D : List Token → Prop}
    (h : Stays run ts p rest) (hsound : ∃ used, ts = used ++ rest ∧ D used ∧ Fits b.maxDepth depth p.nesting) :
    ∃ used, ts = used ++ rest ∧ D used ∧
      ∀ more, more.head? = rest.head? → Reads (run b depth (used ++ more)) p more := by
  obtain ⟨used, hts, hd, hfits⟩ := hsound
  obtain ⟨used', hts', hstays⟩ := h
  obtain rfl := List.append_cancel_right (hts.symm.trans hts')
  exact ⟨used, hts, hd, fun more hmore => hstays b depth more (fun t ht => hmore ▸ ht) hfits⟩

theorem Reads.unique {α : Type} {before rest' : List Token} {r : Except Halt (Parsed α before)} {a c : α}
    (h : Reads r a rest) (h' : Reads r c rest') : c = a ∧ rest' = rest := by
  obtain ⟨le, rfl⟩ := h
  exact reads_ok.1 h'

theorem ends_of_noMembers (h : Reads (readMembers b depth ts) [] rest) : Ends ts ∧ rest = ts := by
  obtain _ | ⟨t, us⟩ := ts
  · exact ⟨ends_nil, ((reads_noMembers ends_nil).1 h).2⟩
  by_cases hends : Ends (t :: us)
  · exact ⟨hends, ((reads_noMembers hends).1 h).2⟩
  rw [ends_cons, not_and_or, not_not, not_not] at hends
  obtain hk | hk := hends
  · obtain ⟨_, _, -, -, hps⟩ := (reads_memberSymbol hk).1 h
    cases hps
  · obtain ⟨_, _, _, -, -, hps⟩ := (reads_memberCommand hk).1 h
    cases hps

theorem not_full (hfull : b.full depth = true) : ¬ (depth : Int) + 1 ≤ b.maxDepth := by
  rw [← full_eq_false, hfull]
  decide

/-! ## The rules -/

theorem breaks_number {vs : List Token} (hn : readNumber depth t vs = .error h) : h.BreaksOff b d n front ts := by
  unfold readNumber at hn
  split at hn
  · cases hn
    rintro p ⟨⟩
  · cases hn

theorem breaks_name (ht : t.kind = .atSign) (hr : readName b depth ts = .error h) :
    h.BreaksOff b depth .argument front (t :: ts) := by
  have hcompletes : Completes .argument ([t] ++ [Filler.letter]) := ⟨_, .argumentReference ht (.inl rfl)⟩
  have hname : ∀ {us}, Takes b depth .argument (t :: us) → ∃ s ∈ us.head?, s.kind = .symbol ∨ s.kind = .identifier := by
    rintro us ⟨p, rest, hread⟩
    obtain ⟨s, rfl, hs, -⟩ := reads_name.1 ((reads_argumentReference ht).1 hread)
    exact ⟨s, rfl, hs⟩
  unfold readName at hr
  split at hr
  · cases hr
    refine breaks_here [t] _ rfl (by simp [fillers]) hcompletes fun us hus htakes => ?_
    obtain ⟨s, hs, -⟩ := @hname us htakes
    rw [hus] at hs
    cases hs
  · rename_i s us
    split at hr
    · cases hr
    · rename_i hs
      cases hr
      refine breaks_here [t] _ rfl (by simp [fillers]) hcompletes fun vs hvs htakes => hs ?_
      obtain ⟨s', hs', hkind⟩ := @hname vs htakes
      rw [hvs] at hs'
      cases hs'
      simpa using hkind

/-- The one fault that is told of the token in front of the one that is wrong. -/
theorem breaks_stray (hfront : AtArgument front) (ht : t.kind = .identifier) (hopens : (b.current ts).kind ≠ .lparen) :
    (b.halt depth (t :: ts) (.expected .symbol .identifier)).BreaksOff b depth .argument front (t :: ts) := by
  have hnone : ∀ s ∈ ts.head?, s.kind ≠ .lparen := by
    intro s hs
    obtain ⟨us, rfl⟩ := List.head?_eq_some_iff.1 hs
    exact hopens
  rintro p ⟨⟩
  refine ⟨[], t :: ts, rfl, rfl, ⟨[Filler.letter], by simp [fillers], _, .argumentSymbol derives_letter⟩, 2,
    .inr ⟨rfl, by rwa [List.append_nil], t, ts, rfl, ht, hnone⟩, ?_⟩
  intro us hus htakes
  obtain _ | ⟨s, us⟩ := us
  · cases hus
  obtain ⟨rfl, htail⟩ := List.cons.inj hus
  replace htail := head?_of_take (.inl rfl) htail
  obtain ⟨p, rest, hread⟩ := htakes
  obtain ⟨opening, vs, -, rfl, ho, -⟩ := reads_command.1 ((reads_argumentCommand ht).1 hread)
  exact hnone opening (htail ▸ rfl) ho

section
variable (hk : t.kind ≠ .rparen) (hd : Derives .argument (t :: used) [p])
include hk hd

/-- Behind an argument only a comma or a closing parenthesis goes on. -/
theorem breaks_behindArgument
    (hstays : ∀ more, more.head? = ts.head? → Reads (readArgument b depth t (used ++ more)) p more)
    (hnone : ∀ s ∈ ts.head?, s.kind ≠ .comma ∧ s.kind ≠ .rparen)
    (hfault : h.fault = .problem ⟨cause, (b.current ts).location⟩) :
    h.BreaksOff b depth .arguments front (t :: (used ++ ts)) := by
  refine breaks_here (t :: used) [Filler.closing] hfault (by simp [fillers])
    ⟨t :: used, _, [p], rfl, rfl, .lastArgument hd⟩ ?_
  rintro us hus ⟨ps, rest, hread⟩
  obtain ⟨q, s, mid, hread, hbehind⟩ := (reads_arguments hk).1 hread
  obtain ⟨-, rfl⟩ := (hstays us hus).unique hread
  obtain ⟨hcomma, hclosing⟩ := hnone s (hus ▸ rfl)
  obtain ⟨hs, -⟩ | ⟨hs, -⟩ := hbehind
  · exact hcomma hs
  · exact hclosing hs

/-- Arguments break where those behind the comma after the first one do. -/
theorem Halt.BreaksOff.behindComma {s : Token} (hh : h.BreaksOff b depth .arguments (front ++ (t :: used ++ [s])) ts)
    (hs : s.kind = .comma)
    (hstays : ∀ more, more.head? = some s → Reads (readArgument b depth t (used ++ more)) p more) :
    h.BreaksOff b depth .arguments front (t :: (used ++ s :: ts)) := by
  have hafter : h.BreaksOff b depth .arguments front (t :: used ++ [s] ++ ts) := by
    refine hh.after _ ?_ ?_
    · rintro us ⟨us, closing, ps, rfl, hc, hds⟩
      exact ⟨[], List.nil_subset _, t :: used ++ s :: us, closing, p :: ps, by simp, hc, .moreArguments hd hs hds⟩
    · rintro us - ⟨ps, rest, hread⟩
      rw [List.append_assoc, List.cons_append] at hread
      obtain ⟨q, s', mid, hread, hbehind⟩ := (reads_arguments hk).1 hread
      obtain ⟨-, heq⟩ := (hstays (s :: us) rfl).unique hread
      cases heq
      obtain ⟨-, qs, hrest, -⟩ | ⟨hclose, -⟩ := hbehind
      · exact ⟨_, _, hrest⟩
      · rw [hs] at hclose
        cases hclose
  rwa [List.append_assoc] at hafter

end

mutual

theorem breaks_sequence (t : Token) (ht : t.kind = .dollar) (ts : List Token) (depth : Nat) (h : Halt)
    (front : List Token) (hr : readSequence b depth t ts = .error h) :
    h.BreaksOff b depth .sequence front (t :: ts) := by
  rw [readSequence] at hr
  split at hr
  · rename_i hfull
    cases hr
    refine breaks_token [Filler.dollar, Filler.letter] rfl (by simp [fillers]) ⟨_, derives_sequence rfl⟩ ?_
    rintro us ⟨p, rest, hread⟩
    exact not_full hfull (reads_sequence.1 hread).1
  split at hr
  · rename_i hm
    cases hr
    refine Halt.BreaksOff.after [t] (breaks_members ts (depth + 1) _ _ hm) ?_ ?_
    · rintro us ⟨p, ps, hd⟩
      cases hd with
      | moreMembers d ds => exact ⟨[], List.nil_subset _, _, by simpa using Derives.sequence ht d ds⟩
    · rintro us - ⟨p, rest, hread⟩
      obtain ⟨-, q, qs, hmembers, -⟩ := reads_sequence.1 hread
      exact ⟨_, _, hmembers⟩
  · rename_i rest le hm
    cases hr
    obtain ⟨hends, rfl⟩ := ends_of_noMembers ⟨le, hm⟩
    refine breaks_here [t] [Filler.letter] rfl (by simp [fillers]) ⟨_, derives_sequence ht⟩ ?_
    rintro us hus ⟨p, rest, hread⟩
    obtain ⟨-, q, qs, hmembers, -⟩ := reads_sequence.1 hread
    have hnone : Ends us := fun s hs => hends s (hus ▸ hs)
    cases ((reads_noMembers hnone).1 hmembers).1
  · cases hr
termination_by (ts.length, 1)

theorem breaks_members : (ts : List Token) → (depth : Nat) → (h : Halt) → (front : List Token) →
    readMembers b depth ts = .error h → h.BreaksOff b depth .members front ts
  | [], depth, h, front, hr => by
    rw [readMembers] at hr
    cases hr
  | t :: us, depth, h, front, hr => by
    rw [readMembers] at hr
    split at hr
    · rename_i hk
      split at hr
      · rename_i hw
        cases hr
        refine breaks_word hw ⟨_, [], Derives.oneMember (.memberSymbol derives_letter)⟩ ?_
        rintro vs ⟨ps, rest, hread⟩
        obtain ⟨q, -, hq, -⟩ := (reads_memberSymbol hk).1 hread
        exact ⟨q, hq⟩
      · rename_i p hw
        split at hr
        · rename_i hm
          cases hr
          refine Halt.BreaksOff.after [t] (breaks_members us depth _ _ hm) ?_ ?_
          · rintro vs ⟨q, qs, hd⟩
            have hfirst : Derives .member [t] [p] := .memberSymbol (.symbol hk ((readWord_eq_ok us).1 hw).1)
            exact ⟨[], List.nil_subset _, p, q :: qs, by simpa using hfirst.moreMembers hd⟩
          · rintro vs - ⟨ps, rest, hread⟩
            obtain ⟨-, qs, -, hrest, -⟩ := (reads_memberSymbol hk).1 hread
            exact ⟨_, _, hrest⟩
        · cases hr
    split at hr
    · rename_i hk
      split at hr
      · rename_i hc
        cases hr
        refine (breaks_command t hk us depth _ front hc).imp ?_ ?_
        · rintro vs ⟨q, hd⟩
          exact ⟨q, [], (Derives.memberCommand hd).oneMember⟩
        · rintro vs ⟨ps, rest, hread⟩
          obtain ⟨q, mid, -, hcommand, -⟩ := (reads_memberCommand hk).1 hread
          exact ⟨_, _, hcommand⟩
      · rename_i p mid le hc
        split at hr
        · rename_i hm
          cases hr
          obtain ⟨used, rfl, hd, hstays⟩ :=
            (stays_command hk ⟨le, hc⟩).taken (sound_command t hk us depth p mid ⟨le, hc⟩)
          refine Halt.BreaksOff.after (t :: used) (breaks_members mid depth _ _ hm) ?_ ?_
          · rintro vs ⟨q, qs, hds⟩
            exact ⟨[], List.nil_subset _, p, q :: qs, by simpa using (Derives.memberCommand hd).moreMembers hds⟩
          · rintro vs hvs ⟨ps, rest, hread⟩
            obtain ⟨q, mid', qs, hcommand, hrest, -⟩ := (reads_memberCommand hk).1 hread
            obtain ⟨-, rfl⟩ := (hstays vs hvs).unique hcommand
            exact ⟨_, _, hrest⟩
        · cases hr
    · cases hr
termination_by ts => (ts.length, 0)

theorem breaks_command (t : Token) (ht : t.kind = .identifier) : (ts : List Token) → (depth : Nat) → (h : Halt) →
    (front : List Token) → readCommand b depth t ts = .error h → h.BreaksOff b depth .command front (t :: ts)
  | [], depth, h, front, hr => by
    rw [readCommand] at hr
    cases hr
    refine breaks_here [t] [Filler.opening, Filler.closing] rfl (by simp [fillers])
      ⟨_, derives_call ht⟩ ?_
    rintro us hus ⟨p, rest, hread⟩
    obtain ⟨s, vs, -, rfl, -⟩ := reads_command.1 hread
    cases hus
  | s :: us, depth, h, front, hr => by
    rw [readCommand] at hr
    split at hr
    · rename_i hs
      split at hr
      · rename_i hfull
        cases hr
        refine breaks_token [Filler.name, Filler.opening, Filler.closing] rfl (by simp [fillers])
          ⟨_, derives_call rfl⟩ ?_
        rintro us ⟨p, rest, hread⟩
        obtain ⟨-, -, -, -, -, hroom, -⟩ := reads_command.1 hread
        exact not_full hfull hroom
      split at hr
      · rename_i ha
        cases hr
        have hfront : AtArgument (front ++ [t, s]) := ⟨s, by simp, .inl hs⟩
        refine Halt.BreaksOff.after [t, s] (breaks_arguments us (depth + 1) _ _ hfront ha) ?_ ?_
        · rintro vs ⟨vs, closing, ps, rfl, hc, hd⟩
          exact ⟨[], List.nil_subset _, _, by simpa using Derives.command ht hs hc hd⟩
        · rintro vs - ⟨p, rest, hread⟩
          obtain ⟨_, _, args, heq, -, -, harguments, -⟩ := reads_command.1 hread
          cases heq
          exact ⟨_, _, harguments⟩
      · cases hr
    · rename_i hs
      cases hr
      refine breaks_here [t] [Filler.opening, Filler.closing] rfl (by simp [fillers])
        ⟨_, derives_call ht⟩ ?_
      rintro us hus ⟨p, rest, hread⟩
      obtain ⟨s', vs, -, rfl, hopens, -⟩ := reads_command.1 hread
      cases hus
      exact hs hopens
termination_by ts => (ts.length, 0)

theorem breaks_arguments : (ts : List Token) → (depth : Nat) → (h : Halt) → (front : List Token) → AtArgument front →
    readArguments b depth ts = .error h → h.BreaksOff b depth .arguments front ts
  | [], depth, h, front, hfront, hr => by
    rw [readArguments] at hr
    cases hr
    refine breaks_here [] [Filler.closing] rfl (by simp [fillers])
      ⟨[], _, [], rfl, rfl, .noArguments⟩ ?_
    rintro us hus ⟨ps, rest, hread⟩
    rw [List.head?_eq_none_iff.1 hus] at hread
    simp [readArguments] at hread
  | t :: us, depth, h, front, hfront, hr => by
    rw [readArguments] at hr
    split at hr
    · cases hr
    rename_i hk
    split at hr
    · rename_i ha
      cases hr
      have hargument := breaks_argument t us depth _ front hfront ha
      refine Halt.BreaksOff.after [] (by rwa [List.append_nil]) ?_ ?_
      · rintro vs ⟨p, hd⟩
        exact ⟨[Filler.closing], by simp [fillers], vs, _, [p], rfl, rfl, .lastArgument hd⟩
      · rintro vs hvs ⟨ps, rest, hread⟩
        obtain ⟨vs, rfl⟩ : ∃ ws, vs = t :: ws := List.head?_eq_some_iff.1 hvs
        obtain ⟨p, s, mid, hread, -⟩ := (reads_arguments hk).1 hread
        exact ⟨_, _, hread⟩
    · rename_i p le ha
      cases hr
      obtain ⟨used, rfl, hd, hstays⟩ := (stays_argument ⟨le, ha⟩).taken (sound_argument t us depth p [] ⟨le, ha⟩)
      exact breaks_behindArgument hk hd hstays (by simp) rfl
    · rename_i p s mid le ha
      obtain ⟨used, rfl, hd, hstays⟩ :=
        (stays_argument ⟨le, ha⟩).taken (sound_argument t us depth p (s :: mid) ⟨le, ha⟩)
      split at hr
      · rename_i hs
        split at hr
        · rename_i hm
          cases hr
          have hfront' : AtArgument (front ++ (t :: used ++ [s])) :=
            ⟨s, by rw [← List.append_assoc]; exact List.getLast?_concat, .inr hs⟩
          have hmore := breaks_arguments mid depth _ _ hfront' hm
          exact hmore.behindComma hk hd hs hstays
        · cases hr
      · rename_i hs
        split at hr
        · cases hr
        · rename_i hs'
          cases hr
          exact breaks_behindArgument hk hd hstays (by simp [hs, hs']) rfl
termination_by ts => (ts.length, 0)

theorem breaks_argument (t : Token) (ts : List Token) (depth : Nat) (h : Halt) (front : List Token)
    (hfront : AtArgument front) (hr : readArgument b depth t ts = .error h) :
    h.BreaksOff b depth .argument front (t :: ts) := by
  rw [readArgument] at hr
  split at hr
  · rename_i hk
    refine (breaks_sequence t hk ts depth h front hr).imp ?_ ?_
    · rintro us ⟨p, hd⟩
      exact ⟨p, .argumentSequence hd⟩
    · rintro us ⟨p, rest, hread⟩
      exact ⟨p, rest, (reads_argumentSequence hk).1 hread⟩
  · rename_i hk
    exact breaks_name hk hr
  · rename_i hk
    split at hr
    · refine (breaks_command t hk ts depth h front hr).imp ?_ ?_
      · rintro us ⟨p, hd⟩
        exact ⟨p, .argumentCommand hd⟩
      · rintro us ⟨p, rest, hread⟩
        exact ⟨p, rest, (reads_argumentCommand hk).1 hread⟩
    · rename_i hopens
      cases hr
      exact breaks_stray hfront hk hopens
  · rename_i hk
    split at hr
    · rename_i hw
      cases hr
      refine breaks_word hw ⟨_, .argumentSymbol derives_letter⟩ ?_
      rintro us ⟨p, rest, hread⟩
      exact ⟨p, ((reads_argumentSymbol hk).1 hread).1⟩
    · cases hr
  · split at hr
    · rename_i hn
      cases hr
      exact breaks_number hn
    · cases hr
  · cases hr
    refine breaks_token [Filler.letter] rfl (by simp [fillers]) ⟨_, .argumentSymbol derives_letter⟩ ?_
    rintro us ⟨p, rest, hread⟩
    obtain ⟨hk, -⟩ | ⟨hk, -⟩ | ⟨hk, -⟩ | ⟨hk, -⟩ | ⟨hk, -⟩ := reads_argument.1 hread <;> contradiction
termination_by (ts.length, 2)

end

theorem breaks_pattern (hr : readPattern b depth ts = .error h) : h.BreaksOff b depth .pattern front ts := by
  obtain _ | ⟨t, us⟩ := ts
  · rw [readPattern] at hr
    cases hr
    refine breaks_here [] [Filler.letter] rfl (by simp [fillers]) ⟨_, .patternSymbol derives_letter⟩ ?_
    rintro us hus ⟨p, rest, hread⟩
    rw [List.head?_eq_none_iff.1 hus] at hread
    exact readPattern_nil hread
  rw [readPattern] at hr
  replace hr := error_step.1 hr
  split at hr
  · rename_i hk
    refine (breaks_sequence t hk us depth h front hr).imp ?_ ?_
    · rintro us ⟨p, hd⟩
      exact ⟨p, .patternSequence hd⟩
    · rintro us ⟨p, rest, hread⟩
      exact ⟨p, rest, (reads_patternSequence hk).1 hread⟩
  · rename_i hk
    refine (breaks_command t hk us depth h front hr).imp ?_ ?_
    · rintro us ⟨p, hd⟩
      exact ⟨p, .patternCommand hd⟩
    · rintro us ⟨p, rest, hread⟩
      exact ⟨p, rest, (reads_patternCommand hk).1 hread⟩
  · rename_i hk
    split at hr
    · rename_i hw
      cases hr
      refine breaks_word hw ⟨_, .patternSymbol derives_letter⟩ ?_
      rintro us ⟨p, rest, hread⟩
      exact ⟨p, ((reads_patternSymbol hk).1 hread).1⟩
    · cases hr
  · cases hr
    refine breaks_token [Filler.letter] rfl (by simp [fillers]) ⟨_, .patternSymbol derives_letter⟩ ?_
    rintro us ⟨p, rest, hread⟩
    obtain ⟨hk, -⟩ | ⟨hk, -⟩ | ⟨hk, -⟩ := reads_pattern.1 hread <;> contradiction

/-- An element count that is none breaks behind its colon. -/
theorem breaks_count {q : Pattern} (hd : Derives .pattern used [q])
    (hstays : ∀ more, more.head? = ts.head? → Reads (readPattern b depth (used ++ more)) q more)
    (hr : readCount b depth q ts = .error h) : h.BreaksOff b depth .topLevel front (used ++ ts) := by
  unfold readCount at hr
  split at hr
  · cases hr
  rename_i colon us
  split at hr
  · rename_i hcolon
    have hcompletes : Completes .topLevel (used ++ [colon] ++ [Filler.number]) := by
      rw [List.append_assoc]
      exact ⟨_, .counted hd hcolon rfl (n := 3) (by with_unfolding_all rfl)⟩
    have hnumber : ∀ {vs}, Takes b depth .topLevel (used ++ [colon] ++ vs) → ∃ n ∈ vs.head?, n.kind = .number := by
      rintro vs ⟨p, rest, hread⟩
      rw [List.append_assoc, List.singleton_append] at hread
      obtain ⟨q', mid, hpattern, hcount, -⟩ := readTopLevel_eq_ok.1 hread
      obtain ⟨rfl, rfl⟩ := (hstays (colon :: vs) rfl).unique hpattern
      obtain ⟨n, k, rfl, hn, -⟩ := (reads_count hcolon).1 hcount
      exact ⟨n, rfl, hn⟩
    have hhere : ∀ {vs : List Token} {cause : Cause}, (∀ n ∈ vs.head?, n.kind ≠ .number) →
        h.fault = .problem ⟨cause, (b.current vs).location⟩ →
        h.BreaksOff b depth .topLevel front (used ++ [colon] ++ vs) := by
      intro vs cause hvs hfault
      refine breaks_here _ _ hfault (by simp [fillers]) hcompletes fun ws hws htakes => ?_
      obtain ⟨n, hn, hkind⟩ := hnumber htakes
      exact hvs n (hws ▸ hn) hkind
    rw [List.append_cons]
    split at hr
    · cases hr
      exact hhere (by simp) rfl
    · rename_i n us
      split at hr
      · split at hr
        · rename_i hn
          cases hr
          exact breaks_number hn
        · cases hr
      · rename_i hn
        cases hr
        exact hhere (by simpa using hn) rfl
  · cases hr

/-- **Where a run breaks**: a run that fails, but for an unread number, fails at the first token with which no pattern
can go on, or at a stray name in front of it. -/
theorem breaks_topLevel (hr : readTopLevel b false depth ts = .error h) : h.BreaksOff b depth .topLevel [] ts := by
  unfold readTopLevel at hr
  split at hr
  · rename_i hp
    cases hr
    refine Halt.BreaksOff.after [] (breaks_pattern hp) ?_ ?_
    · rintro us ⟨p, hd⟩
      exact ⟨[], List.nil_subset _, p, by simpa using hd.plain⟩
    · rintro us - ⟨p, rest, hread⟩
      obtain ⟨q, mid, hpattern, -⟩ := readTopLevel_eq_ok.1 hread
      exact ⟨_, _, hpattern⟩
  rename_i q mid le hp
  split at hr
  · rename_i hc
    cases hr
    obtain ⟨used, rfl, hd, hstays⟩ := (stays_pattern ⟨le, hp⟩).taken (sound_pattern ⟨le, hp⟩)
    exact breaks_count hd hstays hc
  rename_i p rest le' hc
  split at hr
  · rename_i hrest
    cases hr
    have hread : readTopLevel b true depth ts = .ok (p, rest) :=
      readTopLevel_eq_ok.2 ⟨q, mid, ⟨le, hp⟩, ⟨le', hc⟩, .inl rfl⟩
    obtain ⟨used, rfl, hstays⟩ := stays_topLevel hread
    obtain ⟨used', hts, hd, hfits⟩ := sound_topLevel hread
    obtain rfl := List.append_cancel_right hts
    refine breaks_here used [] rfl (List.nil_subset _) (by rw [List.append_nil]; exact ⟨p, hd⟩) ?_
    rintro us hus ⟨q', rest', hread'⟩
    have hagain := hstays b depth true us (fun t ht => hus ▸ ht) (.inl rfl) hfits
    obtain ⟨r, mid', hp', hc', hend⟩ := readTopLevel_eq_ok.1 hread'
    have hopen : readTopLevel b true depth (used ++ us) = .ok (q', rest') :=
      readTopLevel_eq_ok.2 ⟨r, mid', hp', hc', .inl rfl⟩
    obtain ⟨rfl, rfl⟩ : p = q' ∧ us = rest' := by simpa using hagain.symm.trans hopen
    obtain hend | rfl := hend
    · cases hend
    · rw [List.head?_eq_none_iff.1 hus.symm] at hrest
      simp at hrest
  · cases hr

end Rosette.Pattern
