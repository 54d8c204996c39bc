import Rosette.Pattern.Row
import Rosette.Proofs.Pattern.Depth

/-!
# The counts of a pattern that was read

Each count of a pattern that was read from a text is the value of digits that stand in the text side by side
(`allCounts_of_parse`). So a count of such a pattern does not fit into a word only if a number of the text does not
(`fault_of_expand`).
-/

namespace Rosette.Pattern

open Expansion

variable {P Q : Nat → Prop} {p : Pattern} {ps : List Pattern} {n : Count} {k : Nat} {cs ds : List Char} {s : Settings}
  {source : String}

/-- The number is the value of some digits that stand in the text side by side. -/
def IsValueIn (cs : List Char) (k : Nat) : Prop :=
  ∃ ds, ds <:+: cs ∧ (∀ c ∈ ds, c.isDigit = true) ∧ Text.decimalValue ds = k

theorem IsValueIn.of_infix (h : IsValueIn ds k) (hd : ds <:+: cs) : IsValueIn cs k := by
  obtain ⟨es, he, hdigits, hk⟩ := h
  exact ⟨es, he.trans hd, hdigits, hk⟩

theorem AllCounts.imp (h : AllCounts P p) (hPQ : ∀ k, P k → Q k) : AllCounts Q p := by
  induction h with
  | symbol hn => exact .symbol (hn.imp hPQ)
  | sequence each hn ih => exact .sequence ih (hn.imp hPQ)
  | command each hn ih => exact .command ih (hn.imp hPQ)
  | elementCount h hk ih => exact .elementCount ih (hPQ _ hk)
  | reference => exact .reference

/-! ## Words -/

theorem among_of_countOfDigits (hdigits : ∀ c ∈ ds, c.isDigit = true) (h : countOfDigits ds = .ok n) :
    n.Among (IsValueIn ds) := by
  unfold countOfDigits at h
  split at h
  · cases h
    exact .inl rfl
  · cases hread : Numeral.read ds with
    | error f =>
      rw [hread] at h
      cases h
    | ok k =>
      rw [hread] at h
      cases h
      exact .inr ⟨k, rfl, ds, List.infix_rfl, hdigits, (Numeral.read_eq_ok hread).2.2⟩

theorem allCounts_wordSymbols (hcs : ∀ c ∈ cs, c.isAlphanum = true) (h : wordSymbols cs = .ok ps) :
    ∀ p ∈ ps, AllCounts (IsValueIn cs) p := by
  fun_induction wordSymbols cs generalizing ps with
  | case1 =>
    cases h
    simp
  | case2 c cs hc ih =>
    exact fun p hp => (ih (fun d hd => hcs d (List.mem_cons_of_mem _ hd)) h p hp).imp fun _ hk =>
      hk.of_infix (List.suffix_cons c cs).isInfix
  | case3 => cases h
  | case4 c cs s hc n hn ih =>
    have hbehind : ∀ d ∈ cs, d.isAlphanum = true := fun d hd => hcs d (List.mem_cons_of_mem _ hd)
    have hrun : cs.takeWhile Text.isDigit <:+: c :: cs :=
      (List.takeWhile_prefix _).isInfix.trans (List.suffix_cons c cs).isInfix
    have hrest : cs.dropWhile Text.isDigit <:+: c :: cs :=
      (List.dropWhile_suffix _).isInfix.trans (List.suffix_cons c cs).isInfix
    cases hmore : wordSymbols (cs.dropWhile Text.isDigit) with
    | error f => simp [hmore, Except.map] at h
    | ok qs =>
      simp only [hmore, Except.map, Except.ok.injEq] at h
      subst h
      rintro p (_ | ⟨_, hp⟩)
      · have hcount := among_of_countOfDigits (Text.isDigit_of_mem_takeWhile hbehind) hn
        exact .symbol (hcount.imp fun _ hk => hk.of_infix hrun)
      · have hq := ih (fun d hd => hbehind d ((List.dropWhile_suffix _).subset hd)) hmore p hp
        exact hq.imp fun _ hk => hk.of_infix hrest

theorem allCounts_ofWord (hcs : ∀ c ∈ cs, c.isAlphanum = true) (h : ofWord cs = .ok p) :
    AllCounts (IsValueIn cs) p := by
  unfold ofWord at h
  split at h
  · cases h
  · cases h
    exact .symbol (.inl rfl)
  · rename_i hsymbols
    cases h
    exact allCounts_wordSymbols hcs hsymbols _ List.mem_cons_self
  · rename_i hsymbols
    cases h
    exact .sequence (allCounts_wordSymbols hcs hsymbols) (.inl rfl)

/-! ## Texts -/

/-- What the counts that a token gives are like. -/
structure GivesCounts (P : Nat → Prop) (t : Token) : Prop where
  word : t.kind = .symbol → ∀ p, ofWord t.value.toList = .ok p → AllCounts P p
  number : t.kind = .number → ∀ k, Numeral.read t.value.toList = .ok k → P k

theorem gives_of_mem_scan {l : Location} {t : Token} (h : t ∈ (Token.scan l cs).1) : GivesCounts (IsValueIn cs) t := by
  have hlex := Token.isLexical_of_mem_scan h
  unfold Token.IsLexical at hlex
  constructor
  · intro hk p hp
    rw [hk] at hlex
    exact (allCounts_ofWord hlex.1.2 hp).imp fun _ hk' =>
      hk'.of_infix (Token.value_infix_of_mem_scan h (by simp [hk]))
  · intro hk k hread
    rw [hk] at hlex
    exact ⟨_, Token.value_infix_of_mem_scan h (by simp [hk]), hlex.2, (Numeral.read_eq_ok hread).2.2⟩

/-- The counts of the patterns that some tokens mean are those that the tokens give. -/
theorem Derives.allCounts {m : Nonterminal} {ts : List Token} (h : Derives m ts ps) (hts : ∀ t ∈ ts, GivesCounts P t) :
    ∀ p ∈ ps, AllCounts P p := by
  induction h with
  | symbol kind word => simpa using (hts _ List.mem_cons_self).word kind _ word
  | memberSymbol _ ih | memberCommand _ ih | lastArgument _ ih | argumentSequence _ ih | argumentCommand _ ih
  | argumentSymbol _ ih | patternSequence _ ih | patternCommand _ ih | patternSymbol _ ih | plain _ ih => exact ih hts
  | noMembers | noArguments => simp
  | moreMembers _ _ ih ihs =>
    rw [List.forall_mem_append] at hts
    exact List.forall_mem_cons.2 ⟨ih hts.1 _ List.mem_cons_self, ihs hts.2⟩
  | sequence _ _ _ ih ihs =>
    rw [List.forall_mem_cons, List.forall_mem_append] at hts
    have hps := List.forall_mem_cons.2 ⟨ih hts.2.1 _ List.mem_cons_self, ihs hts.2.2⟩
    simpa using AllCounts.sequence hps (.inl rfl)
  | command _ _ _ _ ih =>
    simp only [List.forall_mem_cons, List.forall_mem_append] at hts
    simpa using AllCounts.command (ih hts.2.2.1) (.inl rfl)
  | moreArguments _ _ _ ih ihs =>
    rw [List.forall_mem_append, List.forall_mem_cons] at hts
    exact List.forall_mem_cons.2 ⟨ih hts.1 _ List.mem_cons_self, ihs hts.2.2⟩
  | argumentReference => simpa using AllCounts.reference
  | argumentNumber kind value =>
    simpa using AllCounts.symbol (.inr ⟨_, rfl, (hts _ List.mem_cons_self).number kind _ value⟩)
  | counted _ _ kind value ih =>
    rw [List.forall_mem_append] at hts
    have hk := (hts.2 _ (by simp)).number kind _ value
    simpa using AllCounts.elementCount (ih hts.1 _ List.mem_cons_self) hk

/-- **Each count of a pattern that was read is the value of digits in the text.** -/
theorem allCounts_of_parse (h : parse s source = .ok p) : AllCounts (IsValueIn source.toList) p := by
  obtain ⟨rest, hrun⟩ := parse_eq_ok.1 h
  obtain ⟨used, hused, hd, -⟩ := sound_topLevel hrun
  exact hd.allCounts (fun t ht => gives_of_mem_scan (hused ▸ List.mem_append_left rest ht)) p List.mem_cons_self

/-- What was read from a text fails to expand because a part has no meaning as strokes, or because a number in the text
does not fit into a word. -/
theorem fault_of_expand {f : Expansion.Fault} (h : parse s source = .ok p) (hf : expand s.maxDepth p = .error f) :
    f.isRefusal = true ∨ f = .overflow ∧ ∃ k, IsValueIn source.toList k ∧ Repetition.fits k = false := by
  cases (allCounts_of_parse h).arises s.maxDepth 0 f hf with
  | refused refusal => exact .inl refusal
  | deep full => exact absurd (settled_of_parse h).2.2 full
  | overflow hk large => exact .inr ⟨rfl, _, hk, large⟩

end Rosette.Pattern
