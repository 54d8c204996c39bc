import Rosette.Proofs.Pattern.Canonical
import Rosette.Proofs.Pattern.Recognition

/-!
# Patterns are read back from their texts

Main result: what was read from some text is written without a fault, and what is written is read as the same
pattern to the last token. For any legible pattern the text is read as its canonical form (`run_text`); a pattern
that was read is legible and canonical already (`Derives.settled`).
-/

namespace Rosette.Pattern

open Writing

variable {p : Pattern} {ps : List Pattern} {ts : List Token} {n : Nonterminal}

/-! ## Reading what was written -/

/-- The text of a legible pattern is read as its canonical form, to the last token, if the limit has room for it. -/
theorem run_text (h : LegibleRoot p) {limit : Int} (hfits : Fits limit 0 (canonical p).nesting) :
    ∃ cs, p.text = .ok cs ∧ Spells .topLevel cs [canonical p] ∧ ∀ trailing,
      ((Reader.ofSource limit (String.ofList cs)).run trailing).1 = .ok (canonical p) ∧
        ((Reader.ofSource limit (String.ofList cs)).run trailing).2.rest = [] := by
  obtain ⟨cs, htext, hspells⟩ := h.spelled
  refine ⟨cs, htext, hspells, fun trailing => ?_⟩
  have hread : readTopLevel ⟨limit, (Token.scan .start cs).2⟩ trailing 0 (Token.scan .start cs).1 =
      .ok (canonical p, []) := readTopLevel_of_derives (hspells.derives .start) hfits trailing
  unfold Reader.run Reader.ofSource
  rw [String.toList_ofList]
  dsimp only
  rw [hread]
  exact ⟨rfl, rfl⟩

/-! ## What is read is canonical -/

/-- What the patterns that a nonterminal gives are like: legible where they stand, and already canonical. -/
def Settled : Nonterminal → List Pattern → Prop
  | .symbol, ps | .member, ps | .members, ps =>
    ∀ p ∈ ps, Legible .member p ∧ canonical p = p ∧ dissolved p = [p]
  | .argument, ps | .arguments, ps => ∀ p ∈ ps, Legible .argument p ∧ canonical p = p
  | .sequence, ps | .command, ps | .pattern, ps => ∀ p ∈ ps, Legible .member p ∧ canonical p = p
  | .topLevel, ps => ∀ p ∈ ps, LegibleRoot p ∧ canonical p = p

theorem dissolvedEach_eq_self (h : ∀ p ∈ ps, dissolved p = [p]) : dissolvedEach ps = ps := by
  induction ps with
  | nil => rfl
  | cons p ps ih =>
    rw [dissolvedEach, h p List.mem_cons_self, ih fun q hq => h q (List.mem_cons_of_mem _ hq)]
    rfl

theorem canonicalEach_eq_self (h : ∀ p ∈ ps, canonical p = p) : canonicalEach ps = ps := by
  rw [canonicalEach_eq_map, List.map_congr_left h, List.map_id']

theorem IsWrittenLetter.isLetter (h : p.IsWrittenLetter) : isLetter p = true := by
  obtain ⟨char, rotated, n, rfl, hchar, -⟩ := h
  exact List.contains_iff_mem.2 hchar

theorem IsWrittenLetter.settled (h : p.IsWrittenLetter) : Legible .member p ∧ canonical p = p ∧ dissolved p = [p] := by
  obtain ⟨char, rotated, n, rfl, hchar, hn⟩ := h
  exact ⟨.letter ⟨char, rotated, n, rfl, hchar, hn⟩, rfl, rfl⟩

/-- The pattern of a word is legible, and is one word again. -/
theorem settled_ofWord {cs : List Char} (hw : Token.IsWord cs) (hk : Token.isKeyword cs = false)
    (h : ofWord cs = .ok p) : Legible .member p ∧ canonical p = p ∧ dissolved p = [p] := by
  unfold ofWord at h
  cases hsymbols : wordSymbols cs with
  | error f => simp [hsymbols] at h
  | ok ps =>
    have hall := isWrittenLetter_of_mem_wordSymbols hsymbols
    rw [hsymbols] at h
    match ps, h with
    | [], h =>
      cases h
      rw [Text.lower_of_ascii fun c hc => Text.ascii_of_isAlphanum (hw.2 c hc)]
      exact ⟨.mute (isMute_foldAscii hw hk (eq_none_of_wordSymbols hsymbols)), rfl, rfl⟩
    | [q], h =>
      cases h
      exact (hall p List.mem_cons_self).settled
    | q :: q' :: qs, h =>
      cases h
      have hword : isWord (q :: q' :: qs) = true := by
        rw [isWord, Bool.and_eq_true, List.all_eq_true]
        exact ⟨by simp, fun r hr => (hall r hr).isLetter⟩
      refine ⟨.sequence (by simp) (fun r hr => (hall r hr).settled.1) (.inl rfl), ?_, ?_⟩
      · simp [canonical, hword, Count.isAbsent]
      · simp [dissolved, hword, Count.isAbsent]

/-- What tokens of a text derive is legible and canonical. -/
theorem Derives.settled (h : Derives n ts ps) (hlex : ∀ t ∈ ts, t.IsLexical) : Settled n ps := by
  induction h with
  | @symbol t p kind word =>
    have ht := hlex t List.mem_cons_self
    rw [Token.IsLexical, kind] at ht
    intro q hq
    cases List.mem_singleton.1 hq
    exact settled_ofWord ht.1 ht.2 word
  | memberSymbol _ ih => exact ih hlex
  | memberCommand d ih =>
    obtain ⟨hleg, hp⟩ := ih hlex _ List.mem_cons_self
    intro p hp'
    cases List.mem_singleton.1 hp'
    cases d
    exact ⟨hleg, hp, congrArg (fun p => [p]) hp⟩
  | noMembers => simp [Settled]
  | moreMembers _ _ ih ihs =>
    rw [List.forall_mem_append] at hlex
    intro p hp
    rcases List.mem_cons.1 hp with rfl | hp
    · exact ih hlex.1 _ List.mem_cons_self
    · exact ihs hlex.2 p hp
  | @sequence _ _ _ p ps kind d ds ih ihs =>
    rw [List.forall_mem_cons, List.forall_mem_append] at hlex
    have hall : ∀ q ∈ p :: ps, Legible .member q ∧ canonical q = q ∧ dissolved q = [q] :=
      List.forall_mem_cons.2 ⟨ih hlex.2.1 _ List.mem_cons_self, ihs hlex.2.2⟩
    intro p hp
    cases List.mem_singleton.1 hp
    refine ⟨.sequence (by simp) (fun q hq => (hall q hq).1) (.inl rfl), ?_⟩
    rw [canonical, dissolvedEach_eq_self fun q hq => (hall q hq).2.2]
    split <;> rfl
  | @command t _ _ ts args kind opens closes _ ih =>
    rw [List.forall_mem_cons, List.forall_mem_cons, List.forall_mem_append] at hlex
    have hall := ih hlex.2.2.1
    have ht := hlex.1
    rw [Token.IsLexical, kind] at ht
    intro p hp
    cases List.mem_singleton.1 hp
    refine ⟨.command (List.contains_iff_mem.1 ht.2) (fun q hq => (hall q hq).1) (.inl rfl), ?_⟩
    rw [canonical, canonicalEach_eq_self fun q hq => (hall q hq).2]
    rfl
  | noArguments => simp [Settled]
  | lastArgument _ ih => exact ih hlex
  | moreArguments _ _ _ ih ihs =>
    rw [List.forall_mem_append, List.forall_mem_cons] at hlex
    intro p hp
    rcases List.mem_cons.1 hp with rfl | hp
    · exact ih hlex.1 _ List.mem_cons_self
    · exact ihs hlex.2.2 p hp
  | argumentSequence _ ih | argumentCommand _ ih =>
    exact fun p hp => ⟨(ih hlex p hp).1.asArgument, (ih hlex p hp).2⟩
  | argumentSymbol _ ih => exact fun p hp => ⟨(ih hlex p hp).1.asArgument, (ih hlex p hp).2.1⟩
  | @argumentReference _ t kind named =>
    have ht := hlex t (by simp)
    have hword : Token.IsWord t.value.toList := by
      rcases named with hk | hk <;> rw [Token.IsLexical, hk] at ht <;> exact ht.1
    intro p hp
    cases List.mem_singleton.1 hp
    exact ⟨.reference hword, rfl⟩
  | argumentNumber kind value =>
    intro p hp
    cases List.mem_singleton.1 hp
    exact ⟨.letter ⟨_, _, _, rfl, by decide, .inr ⟨_, rfl, Numeral.fits_of_read value⟩⟩, rfl⟩
  | patternSequence _ ih | patternCommand _ ih => exact ih hlex
  | patternSymbol _ ih => exact fun p hp => ⟨(ih hlex p hp).1, (ih hlex p hp).2.1⟩
  | plain _ ih => exact fun p hp => ⟨.inl (ih hlex p hp).1, (ih hlex p hp).2⟩
  | counted _ mark kind value ih =>
    rw [List.forall_mem_append] at hlex
    obtain ⟨hleg, hp⟩ := ih hlex.1 _ List.mem_cons_self
    intro p hp'
    cases List.mem_singleton.1 hp'
    exact ⟨.inr ⟨_, _, rfl, hleg, Numeral.fits_of_read value⟩, by rw [canonical, hp]⟩

/-- What was read from a text is legible and canonical, and within the limit. -/
theorem settled_of_parse {s : Settings} {source : String} (h : parse s source = .ok p) :
    LegibleRoot p ∧ canonical p = p ∧ Fits s.maxDepth 0 p.nesting := by
  obtain ⟨rest, hrun⟩ := parse_eq_ok.1 h
  obtain ⟨used, hused, hd, hfits⟩ := sound_topLevel hrun
  have hlex : ∀ t ∈ used, t.IsLexical := fun t ht =>
    Token.isLexical_of_mem_scan (p := .start) (hused ▸ List.mem_append_left rest ht)
  obtain ⟨hroot, hcanonical⟩ := hd.settled hlex p List.mem_cons_self
  exact ⟨hroot, hcanonical, hfits⟩

/-- The text of a pattern that was read spells it, and is read back to the last token. -/
theorem text_of_parse {s : Settings} {source : String} (h : parse s source = .ok p) :
    ∃ cs, p.text = .ok cs ∧ Spells .topLevel cs [p] ∧ ∀ trailing,
      ((Reader.ofSource s.maxDepth (String.ofList cs)).run trailing).1 = .ok p ∧
        ((Reader.ofSource s.maxDepth (String.ofList cs)).run trailing).2.rest = [] := by
  obtain ⟨hroot, hcanonical, hfits⟩ := settled_of_parse h
  rw [← hcanonical] at hfits
  have hread := run_text hroot hfits
  rwa [hcanonical] at hread

/-- **Patterns are read back**: what was read from a text has a text, and that is read as the same pattern under
the same limit, to the last token. -/
theorem parse_text_of_parse {s : Settings} {source : String} (h : parse s source = .ok p) :
    ∃ t : String, p.textValue = .ok (.text t) ∧ parse s t = .ok p ∧
      ((Reader.ofSource s.maxDepth t).run s.trailing).2.rest = [] ∧ parse { s with trailing := false } t = .ok p := by
  obtain ⟨cs, htext, -, hread⟩ := text_of_parse h
  have hvalue := (settled_of_parse h).1.textValue htext
  exact ⟨String.ofList cs, hvalue, (hread s.trailing).1, (hread s.trailing).2, (hread false).1⟩

theorem parse_text_of_parse_word :
    ∃ (p : Pattern) (t : String), parse ⟨2, true⟩ "D02:12 )" = .ok p ∧ p.textValue = .ok (.text t) ∧
      parse ⟨2, false⟩ t = .ok p := by
  have h : parse ⟨2, true⟩ "D02:12 )" = .ok (.elementCount (.symbol "d" true (.times 2)) (.times 12)) := by
    with_unfolding_all rfl
  obtain ⟨t, htext, -, -, hparse⟩ := parse_text_of_parse h
  exact ⟨_, t, h, htext, hparse⟩

end Rosette.Pattern
