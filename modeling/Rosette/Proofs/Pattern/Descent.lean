import Mathlib.Logic.Basic
import Rosette.Pattern.Reading
import Rosette.Proofs.Pattern.Grammar
import Rosette.Proofs.Pattern.Word

/-!
# Recursive descent follows the grammar

What each rule of the reader takes when it succeeds is stated once, as an equivalence (`reads_sequence` and the
lemmas beside it). From these the reader is **sound** (`sound_topLevel`): what it takes derives what it gives, and
the levels of the result have room. It is **complete** (`complete`): tokens that derive a pattern with room for its
levels are taken whole, in front of any token that does not go on with them.
-/

namespace Rosette.Pattern

variable {b : Bounds} {depth : Nat} {t : Token} {ts rest : List Token} {p : Pattern} {ps : List Pattern}

/-- A rule succeeded with a value and left the tokens `rest`. -/
def Reads {α : Type} {before : List Token} (r : Except Halt (Parsed α before)) (a : α) (rest : List Token) : Prop :=
  ∃ le, r = .ok ⟨a, rest, le⟩

/-- Whether a run of members ends in front of some tokens. -/
def Ends (ts : List Token) : Prop := ∀ t ∈ ts.head?, t.kind ≠ .symbol ∧ t.kind ≠ .identifier

theorem Reads.length_le {α : Type} {before : List Token} {r : Except Halt (Parsed α before)} {a : α}
    (h : Reads r a rest) : rest.length ≤ before.length := h.1

@[simp] theorem reads_ok {α : Type} {before rest' : List Token} {a c : α} {le : rest'.length ≤ before.length} :
    Reads (.ok ⟨a, rest', le⟩) c rest ↔ c = a ∧ rest = rest' := by
  constructor
  · rintro ⟨_, h⟩
    cases h
    exact ⟨rfl, rfl⟩
  · rintro ⟨rfl, rfl⟩
    exact ⟨le, rfl⟩

@[simp] theorem reads_error {α : Type} {before : List Token} {a : α} {h : Halt} :
    ¬ Reads (.error h : Except Halt (Parsed α before)) a rest := by
  rintro ⟨_, h⟩
  cases h

theorem ends_nil : Ends [] := by simp [Ends]

theorem ends_cons : Ends (t :: ts) ↔ t.kind ≠ .symbol ∧ t.kind ≠ .identifier := by simp [Ends]

theorem full_eq_false : b.full depth = false ↔ (depth : Int) + 1 ≤ b.maxDepth := by
  rw [Bounds.full, decide_eq_false_iff_not]
  omega

/-! ## Words, numbers and names -/

/-- A word makes at most one level. -/
theorem nesting_ofWord {cs : List Char} (h : ofWord cs = .ok p) : p.nesting = if p.isSequence then 1 else 0 := by
  unfold ofWord at h
  cases hw : wordSymbols cs with
  | error f => simp [hw] at h
  | ok ps =>
    have hall := isWrittenLetter_of_mem_wordSymbols hw
    rw [hw] at h
    match ps, h with
    | [], h =>
      cases h
      rfl
    | [q], h =>
      cases h
      obtain ⟨c, r, n, rfl, -⟩ := hall p List.mem_cons_self
      rfl
    | q :: q' :: qs, h =>
      cases h
      have hzero : Fits 0 0 (nestingEach (q :: q' :: qs)) := by
        rw [fits_nestingEach]
        intro s hs
        obtain ⟨c, r, n, rfl, -⟩ := hall s hs
        exact fits_zero _ _
      simp only [Fits] at hzero
      simp only [nesting, isSequence, if_true]
      omega

theorem readWord_eq_ok (ts : List Token) :
    readWord b depth t ts = .ok p ↔ ofWord t.value.toList = .ok p ∧ Fits b.maxDepth depth p.nesting := by
  unfold readWord
  cases hw : ofWord t.value.toList with
  | error f => simp
  | ok q =>
    have hn := nesting_ofWord hw
    cases hq : q.isSequence
    · rw [hq] at hn
      simp only [hq, Bool.false_and, Bool.false_eq_true, if_false, Except.ok.injEq]
      constructor
      · rintro rfl
        exact ⟨rfl, .inl hn⟩
      · exact And.left
    · rw [hq] at hn
      have hfits : Fits b.maxDepth depth q.nesting ↔ b.full depth = false := by
        rw [hn, full_eq_false]
        exact fits_succ.trans (and_iff_left (fits_zero _ _))
      simp only [hq, Bool.true_and, Except.ok.injEq]
      cases hf : b.full depth
      · simp only [Bool.false_eq_true, if_false, Except.ok.injEq]
        constructor
        · rintro rfl
          exact ⟨rfl, hfits.2 hf⟩
        · exact And.left
      · simp only [if_true, reduceCtorEq, false_iff]
        rintro ⟨rfl, h⟩
        rw [hfits, hf] at h
        cases h

theorem readNumber_eq_ok (depth : Nat) (ts : List Token) {n : Nat} :
    readNumber depth t ts = .ok n ↔ Numeral.read t.value.toList = .ok n := by
  unfold readNumber
  cases Numeral.read t.value.toList <;> simp

theorem reads_name :
    Reads (readName b depth ts) p rest ↔
      ∃ t, ts = t :: rest ∧ (t.kind = .symbol ∨ t.kind = .identifier) ∧ p = .reference t.value := by
  cases ts with
  | nil => simp [readName]
  | cons t us =>
    simp only [readName]
    split
    · rename_i h
      simp only [Bool.or_eq_true, decide_eq_true_eq] at h
      simp only [reads_ok, List.cons.injEq]
      constructor
      · rintro ⟨rfl, rfl⟩
        exact ⟨t, ⟨rfl, rfl⟩, h, rfl⟩
      · rintro ⟨_, ⟨rfl, rfl⟩, -, rfl⟩
        exact ⟨rfl, rfl⟩
    · rename_i h
      simp only [Bool.or_eq_true, decide_eq_true_eq] at h
      simp only [reads_error, List.cons.injEq, false_iff]
      rintro ⟨_, ⟨rfl, rfl⟩, h', -⟩
      exact h h'

/-! ## What each rule takes -/

theorem reads_sequence :
    Reads (readSequence b depth t ts) p rest ↔
      (depth : Int) + 1 ≤ b.maxDepth ∧
        ∃ q qs, Reads (readMembers b (depth + 1) ts) (q :: qs) rest ∧ p = .sequence (q :: qs) .absent := by
  rw [readSequence, ← full_eq_false]
  cases b.full depth with
  | true => simp
  | false =>
    rcases hm : readMembers b (depth + 1) ts with h | ⟨_ | ⟨q, qs⟩, rest', le⟩
    · simp
    · simp
    · simp only [Bool.false_eq_true, if_false, reads_ok, List.cons.injEq, true_and]
      constructor
      · rintro ⟨rfl, rfl⟩
        exact ⟨q, qs, ⟨⟨rfl, rfl⟩, rfl⟩, rfl⟩
      · rintro ⟨_, _, ⟨⟨rfl, rfl⟩, rfl⟩, rfl⟩
        exact ⟨rfl, rfl⟩

theorem reads_noMembers (h : Ends ts) : Reads (readMembers b depth ts) ps rest ↔ ps = [] ∧ rest = ts := by
  cases ts with
  | nil => simp [readMembers]
  | cons t us =>
    rw [ends_cons] at h
    simp [readMembers, h.1, h.2]

theorem reads_memberSymbol (h : t.kind = .symbol) :
    Reads (readMembers b depth (t :: ts)) ps rest ↔
      ∃ p qs, (ofWord t.value.toList = .ok p ∧ Fits b.maxDepth depth p.nesting) ∧
        Reads (readMembers b depth ts) qs rest ∧ ps = p :: qs := by
  rw [readMembers, if_pos h]
  simp only [← readWord_eq_ok ts]
  cases readWord b depth t ts with
  | error f => simp
  | ok p =>
    rcases readMembers b depth ts with f | ⟨qs, rest', le⟩
    · simp
    · simp only [reads_ok, Except.ok.injEq]
      constructor
      · rintro ⟨rfl, rfl⟩
        exact ⟨p, qs, rfl, ⟨rfl, rfl⟩, rfl⟩
      · rintro ⟨_, _, rfl, ⟨rfl, rfl⟩, rfl⟩
        exact ⟨rfl, rfl⟩

theorem reads_memberCommand (h : t.kind = .identifier) :
    Reads (readMembers b depth (t :: ts)) ps rest ↔
      ∃ p mid qs, Reads (readCommand b depth t ts) p mid ∧ Reads (readMembers b depth mid) qs rest ∧
        ps = p :: qs := by
  rw [readMembers, if_neg (by rw [h]; decide), if_pos h]
  rcases readCommand b depth t ts with f | ⟨p, mid, le⟩
  · simp
  · rcases hm : readMembers b depth mid with f | ⟨qs, rest', le'⟩
    · simp only [reads_error, reads_ok, false_iff, hm]
      rintro ⟨_, _, _, ⟨rfl, rfl⟩, hr, -⟩
      rw [hm] at hr
      exact reads_error hr
    · simp only [hm, reads_ok]
      constructor
      · rintro ⟨rfl, rfl⟩
        exact ⟨p, mid, qs, ⟨rfl, rfl⟩, by simp [hm], rfl⟩
      · rintro ⟨_, _, _, ⟨rfl, rfl⟩, hr, rfl⟩
        rw [hm, reads_ok] at hr
        exact ⟨by rw [hr.1], hr.2⟩

theorem reads_command :
    Reads (readCommand b depth t ts) p rest ↔
      ∃ opening us args, ts = opening :: us ∧ opening.kind = .lparen ∧ (depth : Int) + 1 ≤ b.maxDepth ∧
        Reads (readArguments b (depth + 1) us) args rest ∧
        p = .command (String.ofList (Text.foldAscii t.value.toList)) args .absent := by
  rw [← full_eq_false]
  cases ts with
  | nil => simp [readCommand]
  | cons opening us =>
    by_cases ho : opening.kind = .lparen
    · cases hf : b.full depth with
      | true => simp [readCommand, hf, ho]
      | false =>
        rcases ha : readArguments b (depth + 1) us with f | ⟨args, rest', le⟩
        · simp [readCommand, hf, ho, ha]
        · simp only [readCommand, hf, ho, ha, if_true, Bool.false_eq_true, if_false, reads_ok, List.cons.injEq]
          constructor
          · rintro ⟨rfl, rfl⟩
            exact ⟨opening, us, args, ⟨rfl, rfl⟩, ho, trivial, by simp [ha], rfl⟩
          · rintro ⟨_, _, _, ⟨rfl, rfl⟩, -, -, hr, rfl⟩
            rw [ha, reads_ok] at hr
            exact ⟨by rw [hr.1], hr.2⟩
    · simp [readCommand, ho]

theorem reads_noArguments (h : t.kind = .rparen) :
    Reads (readArguments b depth (t :: ts)) ps rest ↔ ps = [] ∧ rest = ts := by
  simp [readArguments, h]

theorem reads_arguments (h : t.kind ≠ .rparen) :
    Reads (readArguments b depth (t :: ts)) ps rest ↔
      ∃ p s mid, Reads (readArgument b depth t ts) p (s :: mid) ∧
        ((s.kind = .comma ∧ ∃ qs, Reads (readArguments b depth mid) qs rest ∧ ps = p :: qs) ∨
          (s.kind = .rparen ∧ ps = [p] ∧ rest = mid)) := by
  rw [readArguments, if_neg h]
  rcases ha : readArgument b depth t ts with f | ⟨p, _ | ⟨s, mid⟩, le⟩
  · simp
  · simp
  · simp only [reads_ok, List.cons.injEq]
    by_cases hc : s.kind = .comma
    · rcases hm : readArguments b depth mid with f | ⟨qs, rest', le'⟩
      · simp only [hc, if_true, reads_error, false_iff]
        rintro ⟨_, _, _, ⟨rfl, rfl, rfl⟩, ⟨-, _, hr, -⟩ | ⟨hr, -⟩⟩
        · rw [hm] at hr
          exact reads_error hr
        · simp [hc] at hr
      · simp only [hc, if_true, reads_ok]
        constructor
        · rintro ⟨rfl, rfl⟩
          exact ⟨p, s, mid, ⟨rfl, rfl, rfl⟩, .inl ⟨hc, qs, by simp [hm], rfl⟩⟩
        · rintro ⟨_, _, _, ⟨rfl, rfl, rfl⟩, ⟨-, _, hr, rfl⟩ | ⟨hr, -⟩⟩
          · rw [hm, reads_ok] at hr
            exact ⟨by rw [hr.1], hr.2⟩
          · simp [hc] at hr
    · by_cases hp : s.kind = .rparen
      · rw [if_neg hc, if_pos hp, reads_ok]
        constructor
        · rintro ⟨rfl, rfl⟩
          exact ⟨p, s, rest, ⟨rfl, rfl, rfl⟩, .inr ⟨hp, rfl, rfl⟩⟩
        · rintro ⟨_, _, _, ⟨rfl, rfl, rfl⟩, ⟨hr, -⟩ | ⟨-, rfl, rfl⟩⟩
          · exact absurd hr hc
          · exact ⟨rfl, rfl⟩
      · simp only [hc, hp, if_false, reads_error, false_iff]
        rintro ⟨_, _, _, ⟨rfl, rfl, rfl⟩, ⟨hr, -⟩ | ⟨hr, -⟩⟩
        · exact hc hr
        · exact hp hr

/-- What begins with a token as an argument. -/
theorem reads_argument :
    Reads (readArgument b depth t ts) p rest ↔
      (t.kind = .dollar ∧ Reads (readSequence b depth t ts) p rest) ∨
      (t.kind = .atSign ∧ Reads (readName b depth ts) p rest) ∨
      (t.kind = .identifier ∧ Reads (readCommand b depth t ts) p rest) ∨
      (t.kind = .symbol ∧ (ofWord t.value.toList = .ok p ∧ Fits b.maxDepth depth p.nesting) ∧ rest = ts) ∨
      (t.kind = .number ∧ ∃ n, Numeral.read t.value.toList = .ok n ∧
        p = .symbol Stroke.spacerLetter false (.times n) ∧ rest = ts) := by
  rw [readArgument]
  split
  · simp [*]
  · simp [*]
  · rename_i hk
    split
    · simp [*]
    · rename_i hl
      simp only [hk, reads_error, reduceCtorEq, false_and, true_and, or_false, false_or, false_iff]
      rw [reads_command]
      rintro ⟨opening, us, args, rfl, ho, -⟩
      exact hl ho
  · rename_i hk
    simp only [hk, reduceCtorEq, false_and, true_and, or_false, false_or, ← readWord_eq_ok ts]
    cases readWord b depth t ts with
    | error f => simp
    | ok q => simp [eq_comm]
  · rename_i hk
    simp only [hk, reduceCtorEq, false_and, true_and, false_or, ← readNumber_eq_ok depth ts]
    cases readNumber depth t ts with
    | error f => simp
    | ok n => simp
  · rw [iff_false_left reads_error]
    rintro (⟨h, -⟩ | ⟨h, -⟩ | ⟨h, -⟩ | ⟨h, -⟩ | ⟨h, -⟩) <;> contradiction

theorem reads_argumentSequence (ht : t.kind = .dollar) :
    Reads (readArgument b depth t ts) p rest ↔ Reads (readSequence b depth t ts) p rest := by
  simp [reads_argument, ht]

theorem reads_argumentReference (ht : t.kind = .atSign) :
    Reads (readArgument b depth t ts) p rest ↔ Reads (readName b depth ts) p rest := by
  simp [reads_argument, ht]

theorem reads_argumentCommand (ht : t.kind = .identifier) :
    Reads (readArgument b depth t ts) p rest ↔ Reads (readCommand b depth t ts) p rest := by
  simp [reads_argument, ht]

theorem reads_argumentSymbol (ht : t.kind = .symbol) :
    Reads (readArgument b depth t ts) p rest ↔
      (ofWord t.value.toList = .ok p ∧ Fits b.maxDepth depth p.nesting) ∧ rest = ts := by
  simp [reads_argument, ht]

/-- A reading goes on as one of the tokens from one token before. -/
theorem reads_step {r : Except Halt (Parsed Pattern ts)} :
    Reads (match r with
      | .error h => (.error h : Except Halt (Parsed Pattern (t :: ts)))
      | .ok ⟨p, rest', le⟩ => .ok ⟨p, rest', Nat.le_succ_of_le le⟩) p rest ↔ Reads r p rest := by
  rcases r with h | ⟨q, rest', le⟩ <;> simp

/-- What begins with a token as a whole pattern. -/
theorem reads_pattern :
    Reads (readPattern b depth (t :: ts)) p rest ↔
      (t.kind = .dollar ∧ Reads (readSequence b depth t ts) p rest) ∨
      (t.kind = .identifier ∧ Reads (readCommand b depth t ts) p rest) ∨
      (t.kind = .symbol ∧ (ofWord t.value.toList = .ok p ∧ Fits b.maxDepth depth p.nesting) ∧ rest = ts) := by
  rw [readPattern]
  refine reads_step.trans ?_
  split
  · simp [*]
  · simp [*]
  · rename_i hk
    simp only [hk, reduceCtorEq, false_and, true_and, false_or, ← readWord_eq_ok ts]
    cases readWord b depth t ts with
    | error f => simp
    | ok q => simp [eq_comm]
  · rw [iff_false_left reads_error]
    rintro (⟨h, -⟩ | ⟨h, -⟩ | ⟨h, -⟩) <;> contradiction

theorem reads_patternSequence (ht : t.kind = .dollar) :
    Reads (readPattern b depth (t :: ts)) p rest ↔ Reads (readSequence b depth t ts) p rest := by
  simp [reads_pattern, ht]

theorem reads_patternCommand (ht : t.kind = .identifier) :
    Reads (readPattern b depth (t :: ts)) p rest ↔ Reads (readCommand b depth t ts) p rest := by
  simp [reads_pattern, ht]

theorem reads_patternSymbol (ht : t.kind = .symbol) :
    Reads (readPattern b depth (t :: ts)) p rest ↔
      (ofWord t.value.toList = .ok p ∧ Fits b.maxDepth depth p.nesting) ∧ rest = ts := by
  simp [reads_pattern, ht]

theorem readPattern_nil : ¬ Reads (readPattern b depth []) p rest := by
  simp [readPattern]

theorem reads_noCount (h : ∀ t ∈ ts.head?, t.kind ≠ .colon) {q : Pattern} :
    Reads (readCount b depth q ts) p rest ↔ p = q ∧ rest = ts := by
  cases ts with
  | nil => simp [readCount]
  | cons t us =>
    have ht : t.kind ≠ .colon := h t rfl
    simp [readCount, ht]

theorem reads_count (h : t.kind = .colon) {q : Pattern} :
    Reads (readCount b depth q (t :: ts)) p rest ↔
      ∃ number n, ts = number :: rest ∧ number.kind = .number ∧ Numeral.read number.value.toList = .ok n ∧
        p = .elementCount q (.times n) := by
  cases ts with
  | nil => simp [readCount, h]
  | cons number us =>
    by_cases hn : number.kind = .number
    · cases hv : Numeral.read number.value.toList with
      | error f =>
        simp only [readCount, readNumber, h, hn, hv, if_true, reads_error, List.cons.injEq, false_iff]
        rintro ⟨_, _, ⟨rfl, rfl⟩, -, hr, -⟩
        rw [hv] at hr
        cases hr
      | ok n =>
        simp only [readCount, readNumber, h, hn, hv, if_true, reads_ok, List.cons.injEq]
        constructor
        · rintro ⟨rfl, rfl⟩
          exact ⟨number, n, ⟨rfl, rfl⟩, hn, hv, rfl⟩
        · rintro ⟨_, _, ⟨rfl, rfl⟩, -, hr, rfl⟩
          rw [hv] at hr
          cases hr
          exact ⟨rfl, rfl⟩
    · simp [readCount, h, hn]

/-! ## Soundness -/

mutual

theorem sound_sequence (t : Token) (ht : t.kind = .dollar) (ts : List Token) (depth : Nat) (p : Pattern)
    (rest : List Token) (h : Reads (readSequence b depth t ts) p rest) :
    ∃ used, ts = used ++ rest ∧ Derives .sequence (t :: used) [p] ∧ Fits b.maxDepth depth p.nesting := by
  obtain ⟨hd, q, qs, hm, rfl⟩ := reads_sequence.1 h
  obtain ⟨used, rfl, hder, hfits⟩ := sound_members ts (depth + 1) (q :: qs) rest hm
  cases hder with
  | moreMembers d ds => exact ⟨_, rfl, .sequence ht d ds, fits_succ.2 ⟨hd, hfits⟩⟩
termination_by (ts.length, 1)

theorem sound_members : (ts : List Token) → (depth : Nat) → (ps : List Pattern) → (rest : List Token) →
    Reads (readMembers b depth ts) ps rest →
    ∃ used, ts = used ++ rest ∧ Derives .members used ps ∧ Fits b.maxDepth depth (nestingEach ps)
  | [], depth, ps, rest, h => by
    obtain ⟨rfl, rfl⟩ := (reads_noMembers ends_nil).1 h
    exact ⟨[], rfl, .noMembers, fits_zero _ _⟩
  | t :: us, depth, ps, rest, h => by
    by_cases hends : Ends (t :: us)
    · obtain ⟨rfl, rfl⟩ := (reads_noMembers hends).1 h
      exact ⟨[], rfl, .noMembers, fits_zero _ _⟩
    rw [ends_cons, not_and_or, not_not, not_not] at hends
    obtain hk | hk := hends
    · obtain ⟨p, qs, ⟨hw, hp⟩, hr, rfl⟩ := (reads_memberSymbol hk).1 h
      obtain ⟨used, rfl, hder, hfits⟩ := sound_members us depth qs rest hr
      exact ⟨t :: used, rfl, .moreMembers (.memberSymbol (.symbol hk hw)) hder, fits_max.2 ⟨hp, hfits⟩⟩
    · obtain ⟨p, mid, qs, hc, hr, rfl⟩ := (reads_memberCommand hk).1 h
      have hle : mid.length ≤ us.length := hc.length_le
      obtain ⟨used, hmid, hder, hfits⟩ := sound_members mid depth qs rest hr
      obtain ⟨first, rfl, hd, hp⟩ := sound_command t hk us depth p mid hc
      subst hmid
      exact ⟨t :: first ++ used, by simp, .moreMembers (.memberCommand hd) hder, fits_max.2 ⟨hp, hfits⟩⟩
termination_by ts => (ts.length, 0)

theorem sound_command (t : Token) (ht : t.kind = .identifier) (ts : List Token) (depth : Nat) (p : Pattern)
    (rest : List Token) (h : Reads (readCommand b depth t ts) p rest) :
    ∃ used, ts = used ++ rest ∧ Derives .command (t :: used) [p] ∧ Fits b.maxDepth depth p.nesting := by
  obtain ⟨opening, us, args, rfl, ho, hd, ha, rfl⟩ := reads_command.1 h
  obtain ⟨used, closing, rfl, hc, hder, hfits⟩ := sound_arguments us (depth + 1) args rest ha
  exact ⟨opening :: (used ++ [closing]), by simp, .command ht ho hc hder, fits_succ.2 ⟨hd, hfits⟩⟩
termination_by (ts.length, 0)

theorem sound_arguments : (ts : List Token) → (depth : Nat) → (ps : List Pattern) → (rest : List Token) →
    Reads (readArguments b depth ts) ps rest →
    ∃ used closing, ts = used ++ closing :: rest ∧ closing.kind = .rparen ∧ Derives .arguments used ps ∧
      Fits b.maxDepth depth (nestingEach ps)
  | [], _, _, _, h => by simp [readArguments] at h
  | t :: us, depth, ps, rest, h => by
    by_cases hk : t.kind = .rparen
    · obtain ⟨rfl, rfl⟩ := (reads_noArguments hk).1 h
      exact ⟨[], t, rfl, hk, .noArguments, fits_zero _ _⟩
    obtain ⟨p, s, mid, ha, hs⟩ := (reads_arguments hk).1 h
    have hle : mid.length < us.length := ha.length_le
    obtain ⟨first, hus, hd, hp⟩ := sound_argument t us depth p (s :: mid) ha
    obtain ⟨hc, qs, hr, rfl⟩ | ⟨hc, rfl, rfl⟩ := hs
    · obtain ⟨used, closing, hmid, hclose, hder, hfits⟩ := sound_arguments mid depth qs rest hr
      subst hus hmid
      exact ⟨t :: first ++ s :: used, closing, by simp, hclose, .moreArguments hd hc hder, fits_max.2 ⟨hp, hfits⟩⟩
    · subst hus
      exact ⟨t :: first, s, rfl, hc, .lastArgument hd, fits_max.2 ⟨hp, fits_zero _ _⟩⟩
termination_by ts => (ts.length, 0)

theorem sound_argument (t : Token) (ts : List Token) (depth : Nat) (p : Pattern) (rest : List Token)
    (h : Reads (readArgument b depth t ts) p rest) :
    ∃ used, ts = used ++ rest ∧ Derives .argument (t :: used) [p] ∧ Fits b.maxDepth depth p.nesting := by
  obtain ⟨hk, hr⟩ | ⟨hk, hr⟩ | ⟨hk, hr⟩ | ⟨hk, ⟨hw, hp⟩, rfl⟩ | ⟨hk, n, hn, rfl, rfl⟩ := reads_argument.1 h
  · obtain ⟨used, rfl, hd, hp⟩ := sound_sequence t hk ts depth p rest hr
    exact ⟨used, rfl, .argumentSequence hd, hp⟩
  · obtain ⟨name, rfl, hname, rfl⟩ := reads_name.1 hr
    exact ⟨[name], rfl, .argumentReference hk hname, fits_zero _ _⟩
  · obtain ⟨used, rfl, hd, hp⟩ := sound_command t hk ts depth p rest hr
    exact ⟨used, rfl, .argumentCommand hd, hp⟩
  · exact ⟨[], rfl, .argumentSymbol (.symbol hk hw), hp⟩
  · exact ⟨[], rfl, .argumentNumber hk hn, fits_zero _ _⟩
termination_by (ts.length, 2)

end

theorem sound_pattern (h : Reads (readPattern b depth ts) p rest) :
    ∃ used, ts = used ++ rest ∧ Derives .pattern used [p] ∧ Fits b.maxDepth depth p.nesting := by
  obtain _ | ⟨t, us⟩ := ts
  · exact absurd h readPattern_nil
  obtain ⟨hk, hr⟩ | ⟨hk, hr⟩ | ⟨hk, ⟨hw, hp⟩, rfl⟩ := reads_pattern.1 h
  · obtain ⟨used, rfl, hd, hp⟩ := sound_sequence t hk us depth p rest hr
    exact ⟨t :: used, rfl, .patternSequence hd, hp⟩
  · obtain ⟨used, rfl, hd, hp⟩ := sound_command t hk us depth p rest hr
    exact ⟨t :: used, rfl, .patternCommand hd, hp⟩
  · exact ⟨[t], rfl, .patternSymbol (.symbol hk hw), hp⟩

theorem readTopLevel_eq_ok {trailing : Bool} :
    readTopLevel b trailing depth ts = .ok (p, rest) ↔
      ∃ q mid, Reads (readPattern b depth ts) q mid ∧ Reads (readCount b depth q mid) p rest ∧
        (trailing = true ∨ rest = []) := by
  rw [readTopLevel]
  rcases hp : readPattern b depth ts with h | ⟨q, mid, le⟩
  · simp
  rcases hc : readCount b depth q mid with h | ⟨p', rest', le'⟩
  · simp only [hc, reads_ok, reduceCtorEq, false_iff]
    rintro ⟨_, _, ⟨rfl, rfl⟩, hr, -⟩
    rw [hc] at hr
    exact reads_error hr
  · simp only [hc, reads_ok]
    constructor
    · intro h
      split at h
      · cases h
      · rename_i ht
        cases h
        refine ⟨q, mid, ⟨rfl, rfl⟩, by simp [hc], ?_⟩
        cases trailing <;> simp_all
    · rintro ⟨_, _, ⟨rfl, rfl⟩, hr, ht⟩
      rw [hc, reads_ok] at hr
      obtain ⟨rfl, rfl⟩ := hr
      rw [if_neg]
      obtain rfl | rfl := ht <;> simp

/-- **Soundness**: what a run takes derives what it gives. -/
theorem sound_topLevel {trailing : Bool} (h : readTopLevel b trailing depth ts = .ok (p, rest)) :
    ∃ used, ts = used ++ rest ∧ Derives .topLevel used [p] ∧ Fits b.maxDepth depth p.nesting := by
  obtain ⟨q, mid, hp, hc, -⟩ := readTopLevel_eq_ok.1 h
  obtain ⟨used, rfl, hd, hfits⟩ := sound_pattern hp
  by_cases hmid : ∀ t ∈ mid.head?, t.kind ≠ .colon
  · obtain ⟨rfl, rfl⟩ := (reads_noCount hmid).1 hc
    exact ⟨used, rfl, .plain hd, hfits⟩
  · obtain _ | ⟨t, us⟩ := mid
    · simp at hmid
    have ht : t.kind = .colon := by simpa using hmid
    obtain ⟨number, n, rfl, hk, hn, rfl⟩ := (reads_count ht).1 hc
    exact ⟨used ++ [t, number], by simp, .counted hd ht hk hn, hfits⟩

/-! ## Completeness -/

/-- How the rule of a nonterminal takes tokens that derive patterns, given room for their levels. A sequence ends
only where no member follows, so the rules that may read one ask for that. -/
def Accepts (b : Bounds) : Nonterminal → List Token → List Pattern → Prop
  | .symbol, ts, ps => ∃ t p, ts = [t] ∧ ps = [p] ∧ t.kind = .symbol ∧ ofWord t.value.toList = .ok p
  | .member, ts, ps | .members, ts, ps => ∀ (depth : Nat) (more rest : List Token) (qs : List Pattern),
      Fits b.maxDepth depth (nestingEach ps) → Reads (readMembers b depth more) qs rest →
      Reads (readMembers b depth (ts ++ more)) (ps ++ qs) rest
  | .sequence, ts, ps => ∃ t us p, ts = t :: us ∧ ps = [p] ∧ t.kind = .dollar ∧
      ∀ (depth : Nat) (rest : List Token), Ends rest → Fits b.maxDepth depth p.nesting →
        Reads (readSequence b depth t (us ++ rest)) p rest
  | .command, ts, ps => ∃ t us p, ts = t :: us ∧ ps = [p] ∧ t.kind = .identifier ∧
      ∀ (depth : Nat) (rest : List Token), Fits b.maxDepth depth p.nesting →
        Reads (readCommand b depth t (us ++ rest)) p rest
  | .argument, ts, ps => ∃ t us p, ts = t :: us ∧ ps = [p] ∧ t.kind ≠ .rparen ∧
      ∀ (depth : Nat) (rest : List Token), Ends rest → Fits b.maxDepth depth p.nesting →
        Reads (readArgument b depth t (us ++ rest)) p rest
  | .arguments, ts, ps => ∀ (depth : Nat) (closing : Token) (rest : List Token), closing.kind = .rparen →
      Fits b.maxDepth depth (nestingEach ps) →
      Reads (readArguments b depth (ts ++ closing :: rest)) ps rest
  | .pattern, ts, ps => ∃ p, ps = [p] ∧ ∀ (depth : Nat) (rest : List Token), Ends rest →
      Fits b.maxDepth depth p.nesting → Reads (readPattern b depth (ts ++ rest)) p rest
  | .topLevel, ts, ps => ∃ p, ps = [p] ∧ ∀ (depth : Nat) (trailing : Bool), Fits b.maxDepth depth p.nesting →
      readTopLevel b trailing depth ts = .ok (p, [])

/-- **Completeness**: each rule takes all the tokens that derive a pattern with room for its levels. -/
theorem complete (b : Bounds) {n : Nonterminal} (h : Derives n ts ps) : Accepts b n ts ps := by
  induction h with
  | symbol kind word => exact ⟨_, _, rfl, rfl, kind, word⟩
  | memberSymbol _ ih =>
    obtain ⟨t, q, rfl, hq, hk, hw⟩ := ih
    cases hq
    intro depth more rest qs hfits hmore
    rw [nestingEach, fits_max] at hfits
    exact (reads_memberSymbol hk).2 ⟨_, qs, ⟨hw, hfits.1⟩, hmore, rfl⟩
  | memberCommand _ ih =>
    obtain ⟨t, us, q, rfl, hq, hk, hread⟩ := ih
    cases hq
    intro depth more rest qs hfits hmore
    rw [nestingEach, fits_max] at hfits
    exact (reads_memberCommand hk).2 ⟨_, more, qs, hread depth more hfits.1, hmore, rfl⟩
  | noMembers => exact fun _ _ _ _ _ hmore => hmore
  | moreMembers _ _ ih ihs =>
    intro depth more rest qs hfits hmore
    rw [nestingEach, fits_max] at hfits
    rw [List.append_assoc]
    exact ih depth _ rest _ (fits_max.2 ⟨hfits.1, fits_zero _ _⟩) (ihs depth more rest qs hfits.2 hmore)
  | sequence kind _ _ ih ihs =>
    refine ⟨_, _, _, rfl, rfl, kind, fun depth rest hrest hfits => ?_⟩
    rw [nesting, fits_succ, nestingEach, fits_max] at hfits
    obtain ⟨hd, hp, hps⟩ := hfits
    have hnone : Reads (readMembers b (depth + 1) _) [] _ := (reads_noMembers hrest).2 ⟨rfl, rfl⟩
    have hread := ih (depth + 1) _ rest _ (fits_max.2 ⟨hp, fits_zero _ _⟩) (ihs (depth + 1) rest rest [] hps hnone)
    rw [List.append_nil] at hread
    rw [List.append_assoc]
    exact reads_sequence.2 ⟨hd, _, _, hread, rfl⟩
  | command kind opens closes _ ih =>
    refine ⟨_, _, _, rfl, rfl, kind, fun depth rest hfits => ?_⟩
    rw [nesting, fits_succ] at hfits
    have hread := ih (depth + 1) _ rest closes hfits.2
    rw [List.cons_append, List.append_assoc, List.singleton_append]
    exact reads_command.2 ⟨_, _, _, rfl, opens, hfits.1, hread, rfl⟩
  | noArguments => exact fun depth closing rest hc _ => (reads_noArguments hc).2 ⟨rfl, rfl⟩
  | lastArgument _ ih =>
    obtain ⟨t, us, q, rfl, hq, hk, hread⟩ := ih
    cases hq
    intro depth closing rest hc hfits
    rw [nestingEach, fits_max] at hfits
    have hends : Ends (closing :: rest) := ends_cons.2 (by simp [hc])
    exact (reads_arguments hk).2 ⟨_, closing, rest, hread depth _ hends hfits.1, .inr ⟨hc, rfl, rfl⟩⟩
  | moreArguments _ comma _ ih ihs =>
    obtain ⟨t, us, q, rfl, hq, hk, hread⟩ := ih
    cases hq
    intro depth closing rest hc hfits
    rw [nestingEach, fits_max] at hfits
    rw [List.cons_append, List.cons_append, List.append_assoc, List.cons_append]
    have hends : ∀ ts, Ends (_ :: ts) := fun ts => ends_cons.2 (by rw [comma]; decide)
    exact (reads_arguments hk).2 ⟨_, _, _, hread depth _ (hends _) hfits.1,
      .inl ⟨comma, _, ihs depth closing rest hc hfits.2, rfl⟩⟩
  | argumentSequence _ ih =>
    obtain ⟨t, us, q, rfl, hq, hk, hread⟩ := ih
    refine ⟨t, us, q, rfl, hq, by simp [hk], fun depth rest hrest hfits => ?_⟩
    exact reads_argument.2 (.inl ⟨hk, hread depth rest hrest hfits⟩)
  | argumentReference kind named =>
    refine ⟨_, _, _, rfl, rfl, by simp [kind], fun depth rest _ _ => ?_⟩
    exact reads_argument.2 (.inr (.inl ⟨kind, reads_name.2 ⟨_, rfl, named, rfl⟩⟩))
  | argumentCommand _ ih =>
    obtain ⟨t, us, q, rfl, hq, hk, hread⟩ := ih
    refine ⟨t, us, q, rfl, hq, by simp [hk], fun depth rest _ hfits => ?_⟩
    exact reads_argument.2 (.inr (.inr (.inl ⟨hk, hread depth rest hfits⟩)))
  | argumentSymbol _ ih =>
    obtain ⟨t, q, rfl, hq, hk, hw⟩ := ih
    refine ⟨t, [], q, rfl, hq, by simp [hk], fun depth rest _ hfits => ?_⟩
    exact reads_argument.2 (.inr (.inr (.inr (.inl ⟨hk, ⟨hw, hfits⟩, rfl⟩))))
  | argumentNumber kind value =>
    refine ⟨_, [], _, rfl, rfl, by simp [kind], fun depth rest _ _ => ?_⟩
    exact reads_argument.2 (.inr (.inr (.inr (.inr ⟨kind, _, value, rfl, rfl⟩))))
  | patternSequence _ ih =>
    obtain ⟨t, us, q, rfl, hq, hk, hread⟩ := ih
    exact ⟨q, hq, fun depth rest hrest hfits => reads_pattern.2 (.inl ⟨hk, hread depth rest hrest hfits⟩)⟩
  | patternCommand _ ih =>
    obtain ⟨t, us, q, rfl, hq, hk, hread⟩ := ih
    exact ⟨q, hq, fun depth rest _ hfits => reads_pattern.2 (.inr (.inl ⟨hk, hread depth rest hfits⟩))⟩
  | patternSymbol _ ih =>
    obtain ⟨t, q, rfl, hq, hk, hw⟩ := ih
    exact ⟨q, hq, fun depth rest _ hfits => reads_pattern.2 (.inr (.inr ⟨hk, ⟨hw, hfits⟩, rfl⟩))⟩
  | plain _ ih =>
    obtain ⟨q, hq, hread⟩ := ih
    refine ⟨q, hq, fun depth trailing hfits => readTopLevel_eq_ok.2 ?_⟩
    have hpat := hread depth [] ends_nil hfits
    rw [List.append_nil] at hpat
    exact ⟨q, [], hpat, (reads_noCount (by simp)).2 ⟨rfl, rfl⟩, .inr rfl⟩
  | counted _ mark kind value ih =>
    obtain ⟨q, hq, hread⟩ := ih
    cases hq
    refine ⟨_, rfl, fun depth trailing hfits => readTopLevel_eq_ok.2 ?_⟩
    refine ⟨_, _, hread depth _ (ends_cons.2 (by simp [mark])) hfits, ?_, .inr rfl⟩
    exact (reads_count mark).2 ⟨_, _, rfl, kind, value, rfl⟩

/-- Tokens that derive a whole pattern are taken to the last one. -/
theorem readTopLevel_of_derives (h : Derives .topLevel ts [p]) (hfits : Fits b.maxDepth depth p.nesting)
    (trailing : Bool) : readTopLevel b trailing depth ts = .ok (p, []) := by
  obtain ⟨q, hq, hread⟩ := complete b h
  cases hq
  exact hread depth trailing hfits

/-- The grammar is unambiguous: two readings of the same tokens are what one run gives. -/
theorem Derives.unique {q : Pattern} (hp : Derives .topLevel ts [p]) (hq : Derives .topLevel ts [q]) : p = q := by
  let b : Bounds := ⟨(p.nesting : Int) + q.nesting, .start⟩
  have hroom : ∀ n ≤ p.nesting + q.nesting, Fits b.maxDepth 0 n := by
    intro n hn
    unfold Fits
    dsimp only [b]
    omega
  have h1 := readTopLevel_of_derives hp (hroom _ (by omega)) false
  have h2 := readTopLevel_of_derives hq (hroom _ (by omega)) false
  rw [h1] at h2
  cases h2
  rfl

end Rosette.Pattern
