import Rosette.Proofs.Pattern.Descent

/-!
# Runs over tokens in other places

Where tokens stand has no part in what a run reads. Over tokens of the same kinds and values in other places a run reads
the same pattern and leaves off at the same token, or fails with the same message at the same token. `R` says which
places correspond; `Outcomes` carries that through a run, rule by rule.

Main result: `alike_topLevel`.
-/

namespace Rosette

/-- The same token in a corresponding place. -/
structure Token.Alike (R : Location → Location → Prop) (t t' : Token) : Prop where
  kind : t'.kind = t.kind
  value : t'.value = t.value
  place : R t.location t'.location

theorem Token.Alike.describe {R : Location → Location → Prop} {t t' : Token} (h : t.Alike R t') :
    t'.describe = t.describe := by
  unfold Token.describe
  rw [h.kind, h.value]

namespace Pattern

/-- The same message and hint. -/
structure Cause.Alike (c c' : Cause) : Prop where
  message : c'.message = c.message
  suggestion : c'.suggestion? = c.suggestion?

theorem Cause.Alike.refl (c : Cause) : c.Alike c := ⟨rfl, rfl⟩

/-- The same message and hint at a corresponding place, or the same number that is not read. -/
inductive Fault.Alike (R : Location → Location → Prop) : Fault → Fault → Prop where
  | problem {p p' : Problem} (cause : p.cause.Alike p'.cause) (place : R p.location p'.location) :
      Alike R (.problem p) (.problem p')
  | numeral (f : Numeral.Fault) : Alike R (.numeral f) (.numeral f)

structure Halt.Alike (R : Location → Location → Prop) (h h' : Halt) : Prop where
  fault : h.fault.Alike R h'.fault
  depth : h'.depth = h.depth
  rest : List.Forall₂ (Token.Alike R) h.rest h'.rest

/-- The same limit, and corresponding ends. -/
structure Bounds.Alike (R : Location → Location → Prop) (b b' : Bounds) : Prop where
  maxDepth : b'.maxDepth = b.maxDepth
  stop : R b.stop b'.stop

/-- Both runs give values that are the same in the sense of `S`, or both fail alike. -/
inductive Outcomes (R : Location → Location → Prop) {α β : Type} (S : α → β → Prop) :
    Except Halt α → Except Halt β → Prop where
  | ok {a : α} {c : β} (same : S a c) : Outcomes R S (.ok a) (.ok c)
  | error {h h' : Halt} (halt : h.Alike R h') : Outcomes R S (.error h) (.error h')

/-- The same value, with the same tokens left. -/
inductive Parsed.Alike (R : Location → Location → Prop) {α : Type} {ts ts' : List Token} :
    Parsed α ts → Parsed α ts' → Prop where
  | intro (a : α) {rest rest' : List Token} {le : rest.length ≤ ts.length} {le' : rest'.length ≤ ts'.length}
      (hrest : List.Forall₂ (Token.Alike R) rest rest') : Alike R ⟨a, rest, le⟩ ⟨a, rest', le'⟩

variable {R : Location → Location → Prop} {b b' : Bounds} {t t' : Token} {ts ts' : List Token}

/-! ## Failures, words, numbers and names -/

/-- A cause that names a token does so by what the token is. -/
theorem alike_cause (ht : t.Alike R t') :
    (Cause.unexpected t).Alike (.unexpected t') ∧ (Cause.badName t).Alike (.badName t') ∧
      (Cause.badArgument t).Alike (.badArgument t') ∧ (Cause.trailing t).Alike (.trailing t') := by
  have hdescribe := ht.describe
  refine ⟨⟨?_, rfl⟩, ⟨?_, rfl⟩, ⟨?_, rfl⟩, ⟨?_, rfl⟩⟩ <;>
  · unfold Cause.message
    dsimp only
    rw [hdescribe]

section
variable (hb : b.Alike R b')
include hb

theorem Bounds.Alike.full (depth : Nat) : b'.full depth = b.full depth := by
  rw [Bounds.full, Bounds.full, hb.maxDepth]

theorem alike_end : (Token.endAt b.stop).Alike R (Token.endAt b'.stop) := ⟨rfl, rfl, hb.stop⟩

theorem alike_current (hts : List.Forall₂ (Token.Alike R) ts ts') : (b.current ts).Alike R (b'.current ts') := by
  cases hts with
  | nil => exact alike_end hb
  | cons ht => exact ht

theorem alike_halt (hts : List.Forall₂ (Token.Alike R) ts ts') (depth : Nat) {c c' : Cause} (hc : c.Alike c') :
    (b.halt depth ts c).Alike R (b'.halt depth ts' c') :=
  ⟨.problem hc (alike_current hb hts).place, rfl, hts⟩

theorem alike_haltDeep (ht : t.Alike R t') (hts : List.Forall₂ (Token.Alike R) ts ts') (depth : Nat) :
    (b.haltDeep depth t ts).Alike R (b'.haltDeep depth t' ts') := by
  unfold Bounds.haltDeep
  rw [hb.maxDepth]
  exact ⟨.problem (.refl _) ht.place, rfl, hts⟩

theorem alike_word (ht : t.Alike R t') (hts : List.Forall₂ (Token.Alike R) ts ts') (depth : Nat) :
    Outcomes R Eq (readWord b depth t ts) (readWord b' depth t' ts') := by
  unfold readWord
  rw [ht.value, hb.full]
  cases ofWord t.value.toList with
  | error f => exact .error ⟨.numeral f, rfl, hts⟩
  | ok p =>
    dsimp only
    split
    · exact .error (alike_haltDeep hb ht hts depth)
    · exact .ok rfl

theorem alike_name (hts : List.Forall₂ (Token.Alike R) ts ts') (depth : Nat) :
    Outcomes R (Parsed.Alike R) (readName b depth ts) (readName b' depth ts') := by
  unfold readName
  cases hts with
  | nil => exact .error (alike_halt hb .nil depth (alike_cause (alike_end hb)).2.1)
  | @cons t t' _ _ ht hts =>
    dsimp only
    rw [ht.kind]
    split
    · rw [ht.value]
      exact .ok (.intro _ hts)
    · exact .error (alike_halt hb (.cons ht hts) depth (alike_cause ht).2.1)

end

theorem alike_number (ht : t.Alike R t') (hts : List.Forall₂ (Token.Alike R) ts ts') (depth : Nat) :
    Outcomes R Eq (readNumber depth t ts) (readNumber depth t' ts') := by
  unfold readNumber
  rw [ht.value]
  cases Numeral.read t.value.toList with
  | error f => exact .error ⟨.numeral f, rfl, hts⟩
  | ok n => exact .ok rfl

/-! ## The rules -/

mutual

theorem alike_sequence (hb : b.Alike R b') (t t' : Token) (ht : t.Alike R t') (ts ts' : List Token)
    (hts : List.Forall₂ (Token.Alike R) ts ts') (depth : Nat) :
    Outcomes R (Parsed.Alike R) (readSequence b depth t ts) (readSequence b' depth t' ts') := by
  rw [readSequence, readSequence, hb.full]
  split
  · exact .error (alike_haltDeep hb ht hts depth)
  have hm := alike_members hb ts ts' hts (depth + 1)
  generalize readMembers b (depth + 1) ts = r, readMembers b' (depth + 1) ts' = r' at hm
  cases hm with
  | error halt => exact .error halt
  | ok same =>
    obtain ⟨_ | ⟨p, ps⟩, hrest⟩ := same
    · exact .error (alike_halt hb hrest depth (.refl _))
    · exact .ok (.intro _ hrest)
termination_by (ts.length, 1)

theorem alike_members (hb : b.Alike R b') : (ts ts' : List Token) → List.Forall₂ (Token.Alike R) ts ts' →
    (depth : Nat) → Outcomes R (Parsed.Alike R) (readMembers b depth ts) (readMembers b' depth ts')
  | [], _, .nil, depth => by
    rw [readMembers, readMembers]
    exact .ok (.intro _ .nil)
  | t :: ts, t' :: ts', .cons ht hts, depth => by
    rw [readMembers, readMembers, ht.kind]
    split
    · have hw := alike_word hb ht hts depth
      generalize readWord b depth t ts = r, readWord b' depth t' ts' = r' at hw
      cases hw with
      | error halt => exact .error halt
      | ok same =>
        cases same
        have hm := alike_members hb ts ts' hts depth
        generalize readMembers b depth ts = r, readMembers b' depth ts' = r' at hm
        cases hm with
        | error halt => exact .error halt
        | ok same =>
          obtain ⟨ps, hrest⟩ := same
          exact .ok (.intro _ hrest)
    split
    · have hc := alike_command hb t t' ht ts ts' hts depth
      generalize readCommand b depth t ts = r, readCommand b' depth t' ts' = r' at hc
      cases hc with
      | error halt => exact .error halt
      | ok same =>
        obtain @⟨p, mid, mid', le, le', hmid⟩ := same
        have hm := alike_members hb mid mid' hmid depth
        dsimp only
        generalize readMembers b depth mid = r, readMembers b' depth mid' = r' at hm
        cases hm with
        | error halt => exact .error halt
        | ok same =>
          obtain ⟨ps, hrest⟩ := same
          exact .ok (.intro _ hrest)
    · exact .ok (.intro _ (.cons ht hts))
termination_by ts => (ts.length, 0)

theorem alike_command (hb : b.Alike R b') (t t' : Token) (ht : t.Alike R t') : (ts ts' : List Token) →
    List.Forall₂ (Token.Alike R) ts ts' → (depth : Nat) →
    Outcomes R (Parsed.Alike R) (readCommand b depth t ts) (readCommand b' depth t' ts')
  | [], _, .nil, depth => by
    rw [readCommand, readCommand]
    exact .error (alike_halt hb .nil depth (.refl _))
  | s :: ts, s' :: ts', .cons hs hts, depth => by
    rw [readCommand, readCommand, hs.kind, hb.full, ht.value]
    split
    · split
      · exact .error (alike_haltDeep hb ht hts depth)
      have ha := alike_arguments hb ts ts' hts (depth + 1)
      generalize readArguments b (depth + 1) ts = r, readArguments b' (depth + 1) ts' = r' at ha
      cases ha with
      | error halt => exact .error halt
      | ok same =>
        obtain ⟨ps, hrest⟩ := same
        exact .ok (.intro _ hrest)
    · exact .error (alike_halt hb (.cons hs hts) depth (.refl _))
termination_by ts => (ts.length, 0)

theorem alike_arguments (hb : b.Alike R b') : (ts ts' : List Token) → List.Forall₂ (Token.Alike R) ts ts' →
    (depth : Nat) → Outcomes R (Parsed.Alike R) (readArguments b depth ts) (readArguments b' depth ts')
  | [], _, .nil, depth => by
    rw [readArguments, readArguments]
    exact .error (alike_halt hb .nil depth (alike_cause (alike_end hb)).2.2.1)
  | t :: ts, t' :: ts', .cons ht hts, depth => by
    rw [readArguments, readArguments, ht.kind]
    split
    · exact .ok (.intro _ hts)
    have ha := alike_argument hb t t' ht ts ts' hts depth
    generalize readArgument b depth t ts = r, readArgument b' depth t' ts' = r' at ha
    cases ha with
    | error halt => exact .error halt
    | ok same =>
      obtain @⟨p, mid, mid', le, le', hmid⟩ := same
      cases hmid with
      | nil => exact .error (alike_halt hb .nil depth (.refl _))
      | @cons s s' mid mid' hs hmid =>
        dsimp only
        rw [hs.kind]
        split
        · have hm := alike_arguments hb mid mid' hmid depth
          generalize readArguments b depth mid = r, readArguments b' depth mid' = r' at hm
          cases hm with
          | error halt => exact .error halt
          | ok same =>
            obtain ⟨ps, hrest⟩ := same
            exact .ok (.intro _ hrest)
        split
        · exact .ok (.intro _ hmid)
        · exact .error (alike_halt hb (.cons hs hmid) depth (.refl _))
termination_by ts => (ts.length, 0)
decreasing_by
  · simp [Prod.lex_def]
  · simp only [List.length_cons, Prod.lex_def] at *; omega

theorem alike_argument (hb : b.Alike R b') (t t' : Token) (ht : t.Alike R t') (ts ts' : List Token)
    (hts : List.Forall₂ (Token.Alike R) ts ts') (depth : Nat) :
    Outcomes R (Parsed.Alike R) (readArgument b depth t ts) (readArgument b' depth t' ts') := by
  rw [readArgument, readArgument, ht.kind]
  split
  · exact alike_sequence hb t t' ht ts ts' hts depth
  · exact alike_name hb hts depth
  · rw [(alike_current hb hts).kind]
    split
    · exact alike_command hb t t' ht ts ts' hts depth
    · exact .error (alike_halt hb (.cons ht hts) depth (.refl _))
  · have hw := alike_word hb ht hts depth
    generalize readWord b depth t ts = r, readWord b' depth t' ts' = r' at hw
    cases hw with
    | error halt => exact .error halt
    | ok same =>
      cases same
      exact .ok (.intro _ hts)
  · have hn := alike_number ht hts depth
    generalize readNumber depth t ts = r, readNumber depth t' ts' = r' at hn
    cases hn with
    | error halt => exact .error halt
    | ok same =>
      cases same
      exact .ok (.intro _ hts)
  · exact .error (alike_halt hb (.cons ht hts) depth (alike_cause ht).2.2.1)
termination_by (ts.length, 2)

end

/-- What is found behind the first token is found alike, whichever rule it is that finds it. -/
theorem alike_step {r : Except Halt (Parsed Pattern ts)} {r' : Except Halt (Parsed Pattern ts')}
    (h : Outcomes R (Parsed.Alike R) r r') :
    Outcomes R (Parsed.Alike R)
      (match r with
        | .error h => (.error h : Except Halt (Parsed Pattern (t :: ts)))
        | .ok ⟨p, rest, le⟩ => .ok ⟨p, rest, Nat.le_succ_of_le le⟩)
      (match r' with
        | .error h => (.error h : Except Halt (Parsed Pattern (t' :: ts')))
        | .ok ⟨p, rest, le⟩ => .ok ⟨p, rest, Nat.le_succ_of_le le⟩) := by
  cases h with
  | error halt => exact .error halt
  | ok same =>
    obtain ⟨p, hrest⟩ := same
    exact .ok (.intro p hrest)

theorem alike_pattern (hb : b.Alike R b') (hts : List.Forall₂ (Token.Alike R) ts ts') (depth : Nat) :
    Outcomes R (Parsed.Alike R) (readPattern b depth ts) (readPattern b' depth ts') := by
  cases hts with
  | nil => exact .error (alike_halt hb .nil depth (alike_cause (alike_end hb)).1)
  | @cons t t' ts ts' ht hts =>
    rw [readPattern, readPattern]
    refine alike_step ?_
    rw [ht.kind]
    split
    · exact alike_sequence hb t t' ht ts ts' hts depth
    · exact alike_command hb t t' ht ts ts' hts depth
    · have hw := alike_word hb ht hts depth
      generalize readWord b depth t ts = r, readWord b' depth t' ts' = r' at hw
      cases hw with
      | error halt => exact .error halt
      | ok same =>
        cases same
        exact .ok (.intro _ hts)
    · exact .error (alike_halt hb (.cons ht hts) depth (alike_cause ht).1)

theorem alike_count (hb : b.Alike R b') (hts : List.Forall₂ (Token.Alike R) ts ts') (depth : Nat) (p : Pattern) :
    Outcomes R (Parsed.Alike R) (readCount b depth p ts) (readCount b' depth p ts') := by
  unfold readCount
  cases hts with
  | nil => exact .ok (.intro _ .nil)
  | @cons t t' ts ts' ht hts =>
    dsimp only
    rw [ht.kind]
    split
    · cases hts with
      | nil => exact .error (alike_halt hb .nil depth (.refl _))
      | @cons n n' ts ts' hn hts =>
        dsimp only
        rw [hn.kind]
        split
        · have hread := alike_number hn hts depth
          generalize readNumber depth n ts = r, readNumber depth n' ts' = r' at hread
          cases hread with
          | error halt => exact .error halt
          | ok same =>
            cases same
            exact .ok (.intro _ hts)
        · exact .error (alike_halt hb (.cons hn hts) depth (.refl _))
    · exact .ok (.intro _ (.cons ht hts))

/-- **Where tokens stand has no part in a run**: over the same tokens in corresponding places it reads the same pattern
and leaves the same tokens, or fails alike. -/
theorem alike_topLevel (hb : b.Alike R b') (hts : List.Forall₂ (Token.Alike R) ts ts') (trailing : Bool) (depth : Nat) :
    Outcomes R (fun a c => c.1 = a.1 ∧ List.Forall₂ (Token.Alike R) a.2 c.2)
      (readTopLevel b trailing depth ts) (readTopLevel b' trailing depth ts') := by
  unfold readTopLevel
  have hp := alike_pattern hb hts depth
  generalize readPattern b depth ts = r, readPattern b' depth ts' = r' at hp
  cases hp with
  | error halt => exact .error halt
  | ok same =>
    obtain @⟨p, mid, mid', le, le', hmid⟩ := same
    have hc := alike_count hb hmid depth p
    dsimp only
    generalize readCount b depth p mid = r, readCount b' depth p mid' = r' at hc
    cases hc with
    | error halt => exact .error halt
    | ok same =>
      obtain @⟨q, rest, rest', _, _, hrest⟩ := same
      have hempty : rest'.isEmpty = rest.isEmpty := by cases hrest <;> rfl
      dsimp only
      rw [hempty]
      split
      · exact .error (alike_halt hb hrest depth (alike_cause (alike_current hb hrest)).2.2.2)
      · exact .ok ⟨rfl, hrest⟩

end Pattern

end Rosette
