import Rosette.Proofs.Pattern.Depth

/-!
# A reader under two settings

A reader takes its limit on nesting when it is made, and learns whether tokens are let through behind the pattern when
it is run. Where the settings change in between, the run is one of a limit and a policy that never held together
(`run_ofSource`). That shows only for a text whose pattern has more tokens behind it: one policy takes the pattern, the
other refuses the token, and a limit with too little room refuses both. `run_ofSource_iff` says for which texts the
run still agrees with a run under one of the two settings; `run_ofSource_of_two_settings` is a text where it agrees with
neither.
-/

namespace Rosette.Pattern

variable {b b' : Bounds} {depth : Nat} {ts us : List Token} {t : Token} {p q : Pattern} {limit limit' : Int}
  {source : String}

/-- The run of a reader is that of its own limit and of the policy it is run under. -/
theorem run_ofSource (built active : Settings) (source : String) :
    ((Reader.ofSource built.maxDepth source).run active.trailing).1 =
      parse { built with trailing := active.trailing } source := rfl

/-! ## The two policies -/

/-- Where tokens behind a pattern are not let through, the first of them is refused and nothing else changes. -/
theorem readTopLevel_false (b : Bounds) (depth : Nat) (ts : List Token) :
    readTopLevel b false depth ts =
      match readTopLevel b true depth ts with
      | .error h => .error h
      | .ok (p, []) => .ok (p, [])
      | .ok (_, t :: us) => .error (b.halt depth (t :: us) (.trailing t)) := by
  unfold readTopLevel
  rcases readPattern b depth ts with h | ⟨q, mid, le⟩
  · rfl
  · rcases hc : readCount b depth q mid with h | ⟨p, _ | ⟨t, us⟩, le'⟩ <;> simp [hc, Bounds.current]

theorem parse_false_of_error {f : Fault} (h : parse ⟨limit, true⟩ source = .error f) :
    parse ⟨limit, false⟩ source = .error f := by
  obtain ⟨halt, hrun, hfault⟩ := parse_eq_error.1 h
  exact parse_eq_error.2 ⟨halt, by rw [readTopLevel_false, hrun], hfault⟩

/-- A text that is read if tokens are let through behind its pattern is refused for the first of them, if it has any. -/
theorem parse_false_of_ok (h : parse ⟨limit, true⟩ source = .ok p) :
    parse ⟨limit, false⟩ source = .ok p ∨
      ∃ t : Token, ∀ limit', Fits limit' 0 p.nesting →
        parse ⟨limit', false⟩ source = .error (.problem ⟨.trailing t, t.location⟩) := by
  obtain ⟨_ | ⟨t, us⟩, hrun⟩ := parse_eq_ok.1 h
  · exact .inl (parse_eq_ok.2 ⟨[], by rw [readTopLevel_false, hrun]⟩)
  · refine .inr ⟨t, fun limit' hfits => ?_⟩
    have hmoved : readTopLevel ⟨limit', (Token.scan .start source.toList).2⟩ true 0
        (Token.scan .start source.toList).1 = .ok (p, t :: us) := moved_topLevel hrun hfits
    have hrefused := readTopLevel_false ⟨limit', (Token.scan .start source.toList).2⟩ 0
      (Token.scan .start source.toList).1
    rw [hmoved] at hrefused
    exact parse_eq_error.2 ⟨_, hrefused, rfl⟩

/-! ## The two limits -/

/-- What a text writes does not depend on the limit. -/
theorem parse_unique {trailing trailing' : Bool} (hp : parse ⟨limit, trailing⟩ source = .ok p)
    (hq : parse ⟨limit', trailing'⟩ source = .ok q) : p = q := by
  have hopen : ∀ {limit trailing p}, parse ⟨limit, trailing⟩ source = .ok p → ∀ high : Int,
      Fits high 0 p.nesting → parse ⟨high, true⟩ source = .ok p := by
    intro limit trailing p hp high hfits
    obtain ⟨rest, hrun⟩ := parse_eq_ok.1 hp
    obtain ⟨r, mid, hr, hc, -⟩ := readTopLevel_eq_ok.1 hrun
    exact parse_of_fits (parse_eq_ok.2 ⟨rest, readTopLevel_eq_ok.2 ⟨r, mid, hr, hc, .inl rfl⟩⟩) hfits
  have hpq := (hopen hp (p.nesting + q.nesting) (.inr (by omega))).symm.trans
    (hopen hq (p.nesting + q.nesting) (.inr (by omega)))
  exact Except.ok.inj hpq

/-- Under a limit without room for the pattern of a text, the text is neither read nor refused for what stands behind
its pattern. -/
theorem parse_of_not_fits (hp : parse ⟨limit, true⟩ source = .ok p) (hfits : ¬ Fits limit' 0 p.nesting)
    (trailing : Bool) :
    (∀ q, parse ⟨limit', trailing⟩ source ≠ .ok q) ∧
      ∀ t l, parse ⟨limit', trailing⟩ source ≠ .error (.problem ⟨.trailing t, l⟩) := by
  have hread : ∀ trailing q, parse ⟨limit', trailing⟩ source ≠ .ok q := by
    intro trailing q hq
    rw [parse_unique hp hq] at hfits
    exact hfits (settled_of_parse hq).2.2
  refine ⟨hread trailing, fun t l h => ?_⟩
  obtain ⟨-, q, hq⟩ := parse_of_trailing h
  exact hread true q hq

/-! ## Two settings -/

/-- **When a reader keeps to its settings.** A reader that is made under some settings and run under others does as a
run under one of the two does, unless they disagree about tokens behind a pattern, the text has such tokens, and the
limit of the settings it is run under has no room for its pattern. -/
theorem run_ofSource_iff (built active : Settings) (source : String) :
    (((Reader.ofSource built.maxDepth source).run active.trailing).1 = parse built source ∨
        ((Reader.ofSource built.maxDepth source).run active.trailing).1 = parse active source) ↔
      ∀ p, parse { built with trailing := true } source = .ok p →
        built.trailing = active.trailing ∨ parse { built with trailing := false } source = .ok p ∨
          Fits active.maxDepth 0 p.nesting := by
  rw [run_ofSource]
  obtain ⟨high, policy⟩ := built
  obtain ⟨low, policy'⟩ := active
  dsimp only
  by_cases hpolicy : policy = policy'
  · subst hpolicy
    exact iff_of_true (.inl rfl) fun p _ => .inl rfl
  -- the two policies are both there, so what each does decides
  have hflip : parse ⟨high, policy'⟩ source = parse ⟨high, policy⟩ source ↔
      parse ⟨high, false⟩ source = parse ⟨high, true⟩ source := by
    cases policy <;> cases policy' <;> first | exact absurd rfl hpolicy | exact Iff.rfl | exact eq_comm
  rw [hflip]
  cases hopen : parse ⟨high, true⟩ source with
  | error f => exact iff_of_true (.inl (parse_false_of_error hopen)) fun p hp => nomatch hp
  | ok p =>
    simp only [Except.ok.injEq, forall_eq', hpolicy, false_or]
    obtain hclosed | ⟨t, hclosed⟩ := parse_false_of_ok hopen
    · exact iff_of_true (.inl hclosed) (.inl hclosed)
    have hrefused := hclosed high (settled_of_parse hopen).2.2
    simp only [hrefused, reduceCtorEq, false_or]
    constructor
    · intro h
      by_contra hfits
      obtain ⟨hread, htrailing⟩ := parse_of_not_fits hopen hfits policy'
      cases policy'
      · exact htrailing t t.location (h ▸ hrefused)
      · exact hread p (h ▸ hopen)
    · intro hfits
      cases policy'
      · rw [hrefused, hclosed low hfits]
      · rw [hopen, parse_of_fits hopen hfits]

/-- A reader that agrees with neither settings: its text is too deep for the later limit, and has a token
behind its pattern that the earlier policy refuses. -/
theorem run_ofSource_of_two_settings :
    ¬ (((Reader.ofSource 64 "mir($d) h").run true).1 = parse ⟨64, false⟩ "mir($d) h" ∨
      ((Reader.ofSource 64 "mir($d) h").run true).1 = parse ⟨1, true⟩ "mir($d) h") := by
  have htokens : Token.scan .start "mir($d) h".toList =
      ([⟨.identifier, "mir", ⟨1, 1, 0⟩⟩, ⟨.lparen, "(", ⟨1, 4, 3⟩⟩, ⟨.dollar, "$", ⟨1, 5, 4⟩⟩,
        ⟨.symbol, "d", ⟨1, 6, 5⟩⟩, ⟨.rparen, ")", ⟨1, 7, 6⟩⟩, ⟨.symbol, "h", ⟨1, 9, 8⟩⟩], ⟨1, 10, 9⟩) := by
    decide +kernel
  have hword : ofWord ['d'] = .ok (.symbol "d" false .absent) := by with_unfolding_all rfl
  simp only [parse, Reader.run, Reader.ofSource, htokens]
  simp [readTopLevel, readPattern, readCommand, readArguments, readArgument, readSequence, readMembers, readWord,
    readCount, hword, isSequence, Bounds.full]

end Rosette.Pattern
