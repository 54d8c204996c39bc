import Rosette.Proofs.Pattern.Descent

/-!
# A run sees one token ahead

A rule that succeeds has looked at the tokens it takes and at the one behind them, and at nothing else. So it does the
same in front of any other tokens that begin alike, and at the end of the source (`StartsAs`), under any limit with room
for its result (`Stays`). Completeness gives that, once it is known that a sequence has left off where no member
follows (`ends_of_members`).

Main result: `stays_topLevel`, and of it `moved_topLevel` for a run over the same tokens under another limit.
-/

namespace Rosette.Pattern

variable {b : Bounds} {depth : Nat} {t : Token} {ts us rest more : List Token} {p : Pattern} {ps : List Pattern}

/-- Tokens that begin as `rest` does, or are none. -/
def StartsAs (more rest : List Token) : Prop := ∀ t ∈ more.head?, t ∈ rest.head?

theorem StartsAs.refl (rest : List Token) : StartsAs rest rest := fun _ h => h

theorem StartsAs.ends (h : StartsAs more rest) (hends : Ends rest) : Ends more := fun t ht => hends t (h t ht)

theorem StartsAs.append (h : StartsAs more rest) (us : List Token) : StartsAs (us ++ more) (us ++ rest) := by
  cases us with
  | nil => exact h
  | cons u us => exact fun _ ht => ht

/-- A run over `ts` that gives `p` and leaves `rest` does so with anything in the place of `rest` that begins alike. -/
def Stays (run : Bounds → Nat → (ts : List Token) → Except Halt (Parsed Pattern ts)) (ts : List Token) (p : Pattern)
    (rest : List Token) : Prop :=
  ∃ used, ts = used ++ rest ∧ ∀ (b : Bounds) (depth : Nat) (more : List Token), StartsAs more rest →
    Fits b.maxDepth depth p.nesting → Reads (run b depth (used ++ more)) p more

/-! ## The rules -/

theorem ends_of_members : (ts : List Token) → (ps : List Pattern) → (rest : List Token) →
    Reads (readMembers b depth ts) ps rest → Ends rest
  | [], ps, rest, h => by
    obtain ⟨-, rfl⟩ := (reads_noMembers ends_nil).1 h
    exact ends_nil
  | t :: us, ps, rest, h => by
    by_cases hends : Ends (t :: us)
    · obtain ⟨-, rfl⟩ := (reads_noMembers hends).1 h
      exact hends
    rw [ends_cons, not_and_or, not_not, not_not] at hends
    obtain hk | hk := hends
    · obtain ⟨-, qs, -, hr, -⟩ := (reads_memberSymbol hk).1 h
      exact ends_of_members us qs rest hr
    · obtain ⟨p, mid, qs, hc, hr, -⟩ := (reads_memberCommand hk).1 h
      have hle : mid.length ≤ us.length := hc.length_le
      exact ends_of_members mid qs rest hr
termination_by ts => ts.length

theorem stays_sequence (ht : t.kind = .dollar) (h : Reads (readSequence b depth t ts) p rest) :
    Stays (readSequence · · t ·) ts p rest := by
  obtain ⟨used, rfl, hd, -⟩ := sound_sequence t ht ts depth p rest h
  obtain ⟨-, q, qs, hm, -⟩ := reads_sequence.1 h
  refine ⟨used, rfl, fun b' depth' more hmore hfits => ?_⟩
  obtain ⟨t', us, q', hts, hq, -, hread⟩ := complete b' hd
  cases hts
  cases hq
  exact hread depth' more (hmore.ends (ends_of_members _ _ _ hm)) hfits

theorem stays_command (ht : t.kind = .identifier) (h : Reads (readCommand b depth t ts) p rest) :
    Stays (readCommand · · t ·) ts p rest := by
  obtain ⟨used, rfl, hd, -⟩ := sound_command t ht ts depth p rest h
  refine ⟨used, rfl, fun b' depth' more _ hfits => ?_⟩
  obtain ⟨t', us, q', hts, hq, -, hread⟩ := complete b' hd
  cases hts
  cases hq
  exact hread depth' more hfits

theorem stays_argument (h : Reads (readArgument b depth t ts) p rest) : Stays (readArgument · · t ·) ts p rest := by
  obtain ⟨hk, hr⟩ | ⟨hk, hr⟩ | ⟨hk, hr⟩ | ⟨hk, ⟨hw, -⟩, rfl⟩ | ⟨hk, n, hn, rfl, rfl⟩ := reads_argument.1 h
  · obtain ⟨used, rfl, hstays⟩ := stays_sequence hk hr
    exact ⟨used, rfl, fun b' depth' more hmore hfits =>
      reads_argument.2 (.inl ⟨hk, hstays b' depth' more hmore hfits⟩)⟩
  · obtain ⟨name, rfl, hname, rfl⟩ := reads_name.1 hr
    exact ⟨[name], rfl, fun b' depth' more _ _ =>
      reads_argument.2 (.inr (.inl ⟨hk, reads_name.2 ⟨name, rfl, hname, rfl⟩⟩))⟩
  · obtain ⟨used, rfl, hstays⟩ := stays_command hk hr
    exact ⟨used, rfl, fun b' depth' more hmore hfits =>
      reads_argument.2 (.inr (.inr (.inl ⟨hk, hstays b' depth' more hmore hfits⟩)))⟩
  · exact ⟨[], rfl, fun b' depth' more _ hfits =>
      reads_argument.2 (.inr (.inr (.inr (.inl ⟨hk, ⟨hw, hfits⟩, rfl⟩))))⟩
  · exact ⟨[], rfl, fun b' depth' more _ _ =>
      reads_argument.2 (.inr (.inr (.inr (.inr ⟨hk, n, hn, rfl, rfl⟩))))⟩

theorem stays_pattern (h : Reads (readPattern b depth ts) p rest) : Stays readPattern ts p rest := by
  obtain _ | ⟨t, us⟩ := ts
  · exact absurd h readPattern_nil
  obtain ⟨hk, hr⟩ | ⟨hk, hr⟩ | ⟨hk, ⟨hw, -⟩, rfl⟩ := reads_pattern.1 h
  · obtain ⟨used, rfl, hstays⟩ := stays_sequence hk hr
    exact ⟨t :: used, rfl, fun b' depth' more hmore hfits =>
      reads_pattern.2 (.inl ⟨hk, hstays b' depth' more hmore hfits⟩)⟩
  · obtain ⟨used, rfl, hstays⟩ := stays_command hk hr
    exact ⟨t :: used, rfl, fun b' depth' more hmore hfits =>
      reads_pattern.2 (.inr (.inl ⟨hk, hstays b' depth' more hmore hfits⟩))⟩
  · exact ⟨[t], rfl, fun b' depth' more _ hfits => reads_pattern.2 (.inr (.inr ⟨hk, ⟨hw, hfits⟩, rfl⟩))⟩

/-- The element count of a pattern, or that none follows, is read alike; it is no level. -/
theorem stays_count {q : Pattern} (h : Reads (readCount b depth q ts) p rest) :
    p.nesting = q.nesting ∧ Stays (readCount · · q ·) ts p rest := by
  by_cases hts : ∀ t ∈ ts.head?, t.kind ≠ .colon
  · obtain ⟨rfl, rfl⟩ := (reads_noCount hts).1 h
    exact ⟨rfl, [], rfl, fun b' depth' more hmore _ =>
      (reads_noCount fun t ht => hts t (hmore t ht)).2 ⟨rfl, rfl⟩⟩
  · obtain _ | ⟨t, us⟩ := ts
    · simp at hts
    have ht : t.kind = .colon := by simpa using hts
    obtain ⟨number, n, rfl, hk, hn, rfl⟩ := (reads_count ht).1 h
    exact ⟨rfl, [t, number], rfl, fun b' depth' more _ _ => (reads_count ht).2 ⟨number, n, rfl, hk, hn, rfl⟩⟩

/-- **A run sees one token ahead**: what it reads it reads as well in front of any tokens that begin as those behind its
pattern do, under any limit with room for the pattern. -/
theorem stays_topLevel {trailing : Bool} (h : readTopLevel b trailing depth ts = .ok (p, rest)) :
    ∃ used, ts = used ++ rest ∧ ∀ (b' : Bounds) (depth' : Nat) (trailing' : Bool) (more : List Token),
      StartsAs more rest → trailing' = true ∨ more = [] → Fits b'.maxDepth depth' p.nesting →
        readTopLevel b' trailing' depth' (used ++ more) = .ok (p, more) := by
  obtain ⟨q, mid, hp, hc, -⟩ := readTopLevel_eq_ok.1 h
  obtain ⟨taken, rfl, hpattern⟩ := stays_pattern hp
  obtain ⟨hnesting, counted, rfl, hcount⟩ := stays_count hc
  refine ⟨taken ++ counted, by simp, fun b' depth' trailing' more hmore hend hfits => ?_⟩
  rw [List.append_assoc]
  have hq := hpattern b' depth' (counted ++ more) (hmore.append counted) (hnesting ▸ hfits)
  exact readTopLevel_eq_ok.2 ⟨q, counted ++ more, hq, hcount b' depth' more hmore hfits, hend⟩

/-- A run that succeeds under one limit succeeds alike under any other with room for its result. -/
theorem moved_topLevel {b' : Bounds} {depth' : Nat} {trailing : Bool}
    (h : readTopLevel b trailing depth ts = .ok (p, rest)) (hfits : Fits b'.maxDepth depth' p.nesting) :
    readTopLevel b' trailing depth' ts = .ok (p, rest) := by
  obtain ⟨-, -, -, -, hend⟩ := readTopLevel_eq_ok.1 h
  obtain ⟨used, rfl, hstays⟩ := stays_topLevel h
  exact hstays b' depth' trailing rest (.refl rest) hend hfits

end Rosette.Pattern
