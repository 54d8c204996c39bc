import Rosette.Proofs.Numeral
import Rosette.Proofs.Pattern.Descent
import Rosette.Proofs.Token.Composition

/-!
# The reader recognizes the grammar

Main result: a text is read as a pattern exactly if its tokens derive the pattern and the limit has room for its
levels. The numbers of a text with runs of digits that are not too long are all read, so there the grammar is one of
tokens alone (`terminals_total`).
-/

namespace Rosette

/-! ## Numbers and words that are read -/

theorem Numeral.read_of_isDigit {cs : List Char} (h : ∀ c ∈ cs, c.isDigit = true) (hle : cs.length ≤ digitLimit) :
    read cs = .ok (Text.decimalValue cs) := by
  have hall : ∀ c ∈ cs, Text.isDecimal c = true := fun c hc => Text.isDecimal_of_isDigit (h c hc)
  rw [read, List.takeWhile_eq_self_iff.2 hall, if_neg (by omega), if_pos (List.all_eq_true.2 hall)]

namespace Pattern

/-- No run of digits in a text has more digits than are read. -/
def ShortRuns (cs : List Char) : Prop :=
  ∀ ds, ds <:+: cs → (∀ c ∈ ds, c.isDigit = true) → ds.length ≤ Numeral.digitLimit

theorem ShortRuns.of_infix {cs ds : List Char} (h : ShortRuns cs) (hd : ds <:+: cs) : ShortRuns ds :=
  fun es he => h es (he.trans hd)

theorem wordSymbols_total {cs : List Char} (h : ∀ c ∈ cs, c.isAlphanum = true) (hs : ShortRuns cs) :
    ∃ ps, wordSymbols cs = .ok ps := by
  induction hn : cs.length using Nat.strongRecOn generalizing cs with
  | ind n ih =>
    subst hn
    cases cs with
    | nil => exact ⟨[], by rw [wordSymbols]⟩
    | cons c cs =>
      have hcs : ∀ d ∈ cs, d.isAlphanum = true := fun d hd => h d (List.mem_cons_of_mem _ hd)
      rw [wordSymbols]
      cases hc : Stroke.ofChar? c with
      | none => exact ih cs.length (by simp) hcs (hs.of_infix (List.suffix_cons c cs).isInfix) rfl
      | some s =>
        have hrun : cs.takeWhile Text.isDigit <:+: c :: cs :=
          (List.takeWhile_prefix _).isInfix.trans (List.suffix_cons c cs).isInfix
        have hrest : cs.dropWhile Text.isDigit <:+: c :: cs :=
          (List.dropWhile_suffix _).isInfix.trans (List.suffix_cons c cs).isInfix
        have hdigits := Text.isDigit_of_mem_takeWhile hcs
        have hcount : ∃ n, countOfDigits (cs.takeWhile Text.isDigit) = .ok n := by
          rw [countOfDigits, Numeral.read_of_isDigit hdigits (hs _ hrun hdigits)]
          split
          · exact ⟨_, rfl⟩
          · exact ⟨_, rfl⟩
        obtain ⟨n, hn⟩ := hcount
        obtain ⟨ps, hps⟩ := ih _ (by
          have := (List.dropWhile_suffix Text.isDigit (l := cs)).length_le
          simp only [List.length_cons]
          omega) (fun d hd => h d (hrest.subset hd)) (hs.of_infix hrest) rfl
        simp [hn, hps, Except.map]

theorem ofWord_total {cs : List Char} (h : ∀ c ∈ cs, c.isAlphanum = true) (hs : ShortRuns cs) :
    ∃ p, ofWord cs = .ok p := by
  obtain ⟨ps, hps⟩ := wordSymbols_total h hs
  rw [ofWord, hps]
  rcases ps with - | ⟨p, - | ⟨q, ps⟩⟩
  · exact ⟨_, rfl⟩
  · exact ⟨_, rfl⟩
  · exact ⟨_, rfl⟩

end Pattern

namespace Token

/-- The value of a token other than a string is part of the text. -/
theorem value_infix_of_mem_scan {a : List Char} {p : Location} {t : Token} (h : t ∈ (scan p a).1)
    (hk : t.kind ≠ .string) : t.value.toList <:+: a := by
  obtain ⟨l, before, behind, rfl, hl, hkind, hv, -⟩ := exists_lexeme_of_mem_scan h
  have hspan : l.value = l.span := by
    obtain ⟨c, s, hs⟩ := List.exists_cons_of_ne_nil (Lexeme.span_prefix hl).2
    rw [hs, List.cons_append] at hl
    obtain ⟨k, hp⟩ | hq | hd | ha | ⟨-, hn⟩ := Lexeme.read?_cases c
    · rw [Lexeme.read?_punctuation hp] at hl
      cases hl
      rfl
    · rw [Lexeme.read?_quote hq] at hl
      cases hl
      exact absurd hkind hk
    · rw [Lexeme.read?_digit hd] at hl
      cases hl
      rfl
    · rw [Lexeme.read?_letter ha] at hl
      cases hl
      rfl
    · simp [hn] at hl
  rw [hv, String.toList_ofList, hspan]
  exact ⟨before, behind, by simp⟩

theorem tokenize_dropLast (source : String) : (tokenize source).dropLast = (scan .start source.toList).1 := by
  simp [tokenize, Scanner.run]

end Token

namespace Pattern

/-- Where no run of digits is too long, each number has its value and each word its pattern. -/
theorem terminals_total {a : List Char} {l : Location} {t : Token} (hruns : ShortRuns a) (h : t ∈ (Token.scan l a).1) :
    (t.kind = .number → Numeral.read t.value.toList = .ok (Text.decimalValue t.value.toList)) ∧
      (t.kind = .symbol → ∃ p, ofWord t.value.toList = .ok p) := by
  have hlex := Token.isLexical_of_mem_scan h
  unfold Token.IsLexical at hlex
  constructor
  · intro hk
    rw [hk] at hlex
    have hin := Token.value_infix_of_mem_scan h (by simp [hk])
    exact Numeral.read_of_isDigit hlex.2 (hruns _ hin hlex.2)
  · intro hk
    rw [hk] at hlex
    have hin := Token.value_infix_of_mem_scan h (by simp [hk])
    exact ofWord_total hlex.1.2 (hruns.of_infix hin)

/-! ## Whole texts -/

theorem parse_eq_ok {s : Settings} {source : String} {p : Pattern} :
    parse s source = .ok p ↔ ∃ rest,
      readTopLevel ⟨s.maxDepth, (Token.scan .start source.toList).2⟩ s.trailing 0
        (Token.scan .start source.toList).1 = .ok (p, rest) := by
  unfold parse Reader.run Reader.ofSource
  dsimp only
  rcases readTopLevel ⟨s.maxDepth, (Token.scan .start source.toList).2⟩ s.trailing 0
      (Token.scan .start source.toList).1 with h | ⟨q, rest⟩
  · simp
  · simp

/-- **The reader recognizes the grammar**: a text with nothing behind its pattern is read as `p` exactly if its
tokens derive `p` and the limit has room for the levels of `p`. Tokens have at most one derived pattern, and
the numbers and words of the text all have their values. -/
theorem parse_eq_ok_iff {limit : Int} (hlimit : 0 ≤ limit) (source : String) (hruns : ShortRuns source.toList) :
    (∀ p, parse ⟨limit, false⟩ source = .ok p ↔
        Derives .topLevel (Token.tokenize source).dropLast [p] ∧ (p.nesting : Int) ≤ limit) ∧
      (∀ ts p q, Derives .topLevel ts [p] → Derives .topLevel ts [q] → p = q) ∧
      ∀ t ∈ (Token.tokenize source).dropLast,
        (t.kind = .number → Numeral.read t.value.toList = .ok (Text.decimalValue t.value.toList)) ∧
          (t.kind = .symbol → ∃ p, ofWord t.value.toList = .ok p) := by
  rw [Token.tokenize_dropLast]
  refine ⟨fun p => ?_, fun _ _ _ hp hq => hp.unique hq, fun t ht => terminals_total hruns ht⟩
  have hroom : Fits limit 0 p.nesting ↔ (p.nesting : Int) ≤ limit := by
    unfold Fits
    omega
  rw [parse_eq_ok, ← hroom]
  constructor
  · rintro ⟨rest, h⟩
    obtain ⟨q, mid, -, -, htrailing | rfl⟩ := readTopLevel_eq_ok.1 h
    · cases htrailing
    obtain ⟨used, hts, hd, hfits⟩ := sound_topLevel h
    rw [hts, List.append_nil]
    exact ⟨hd, hfits⟩
  · rintro ⟨hd, hfits⟩
    exact ⟨[], readTopLevel_of_derives hd hfits false⟩

theorem parse_eq_ok_iff_seq :
    parse ⟨2, false⟩ "seq($d2):4" =
      .ok (.elementCount (.command "seq" [.sequence [.symbol "d" false (.times 2)] .absent] .absent) (.times 4)) := by
  have hruns : ShortRuns "seq($d2):4".toList := fun ds h _ => h.length_le.trans (by decide)
  have htokens : (Token.tokenize "seq($d2):4").dropLast =
      [⟨.identifier, "seq", ⟨1, 1, 0⟩⟩, ⟨.lparen, "(", ⟨1, 4, 3⟩⟩, ⟨.dollar, "$", ⟨1, 5, 4⟩⟩,
        ⟨.symbol, "d2", ⟨1, 6, 5⟩⟩, ⟨.rparen, ")", ⟨1, 8, 7⟩⟩, ⟨.colon, ":", ⟨1, 9, 8⟩⟩,
        ⟨.number, "4", ⟨1, 10, 9⟩⟩] := by decide +kernel
  have hmember : Derives .member [⟨.symbol, "d2", ⟨1, 6, 5⟩⟩] [.symbol "d" false (.times 2)] :=
    .memberSymbol (.symbol rfl (by with_unfolding_all rfl))
  have hsequence := @Derives.sequence ⟨.dollar, "$", ⟨1, 5, 4⟩⟩ _ _ _ _ rfl hmember .noMembers
  have hcommand := @Derives.command ⟨.identifier, "seq", ⟨1, 1, 0⟩⟩ ⟨.lparen, "(", ⟨1, 4, 3⟩⟩
    ⟨.rparen, ")", ⟨1, 8, 7⟩⟩ _ _ rfl rfl rfl (.lastArgument (.argumentSequence hsequence))
  have hcounted := @Derives.counted ⟨.colon, ":", ⟨1, 9, 8⟩⟩ ⟨.number, "4", ⟨1, 10, 9⟩⟩ _ _ 4
    (.patternCommand hcommand) rfl rfl rfl
  refine ((parse_eq_ok_iff (by decide) _ hruns).1 _).2 ⟨?_, by decide⟩
  rw [htokens]
  exact hcounted

end Pattern

end Rosette
