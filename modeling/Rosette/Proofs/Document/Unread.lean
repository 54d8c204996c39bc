import Rosette.Proofs.Document.Places

/-!
# Numbers of a document that are not read

A document has numbers in its rings, its patterns and its colours. They may have digits of any script, and each of them
stands in its line as it is. Main result: where no run of digits is too long, all of them are read
(`parse_ne_numeral`).
-/

namespace Rosette

open Text

/-- No run of decimal digits of any script in a text has more digits than are read. -/
def Numeral.ShortDecimals (cs : List Char) : Prop :=
  ∀ ds, ds <:+: cs → (∀ c ∈ ds, isDecimal c = true) → ds.length ≤ digitLimit

namespace Numeral

variable {cs ds : List Char}

theorem ShortDecimals.of_infix (h : ShortDecimals cs) (hd : ds <:+: cs) : ShortDecimals ds :=
  fun es he => h es (he.trans hd)

theorem ShortDecimals.shortRuns (h : ShortDecimals cs) : Pattern.ShortRuns cs :=
  fun ds hd hdigits => h ds hd fun c hc => isDecimal_of_isDigit (hdigits c hc)

theorem ShortDecimals.read_eq_ok (h : ShortDecimals cs) (hd : ds <:+: cs) (hdigits : ∀ c ∈ ds, isDecimal c = true) :
    read ds = .ok (decimalValue ds) := by
  have hle := h ds hd hdigits
  rw [read, List.takeWhile_eq_self_iff.2 hdigits, if_neg (by omega), if_pos (List.all_eq_true.2 hdigits)]

theorem read_tooLong (hdigits : ∀ c ∈ ds, isDecimal c = true) (hlong : digitLimit < ds.length) :
    read ds = .error .tooLong := by
  rw [read, List.takeWhile_eq_self_iff.2 hdigits, if_pos hlong]

end Numeral

/-! ## Colours -/

namespace Color

variable {cs rest ds : List Char}

theorem suffix_of_splitCount? (h : splitCount? cs = some (ds, rest)) :
    ds ++ rest <:+ cs ∧ ∀ c ∈ ds, isDecimal c = true := by
  unfold splitCount? at h
  dsimp only at h
  split at h
  · cases h
  · cases h
    rw [List.takeWhile_append_dropWhile]
    exact ⟨List.dropWhile_suffix _, fun c hc => List.mem_takeWhile_imp hc⟩

/-- The numbers of a colour are runs of digits of its text. -/
theorem runs_of_tripleForm? {t : List Char × List Char × List Char} (h : tripleForm? cs = some t) :
    ∀ ds ∈ [t.1, t.2.1, t.2.2], ds <:+: cs ∧ ∀ c ∈ ds, isDecimal c = true := by
  unfold tripleForm? at h
  split at h
  · rename_i cs
    split at h
    · cases h
    · rename_i behind hrun _
      split at h
      · rename_i b behind' hb
        split at h
        · rename_i c hc
          cases h
          obtain ⟨hbin, hbdigits⟩ := suffix_of_splitCount? hb
          obtain ⟨hcin, hcdigits⟩ := suffix_of_splitCount? hc
          have ha : cs.takeWhile isDecimal <:+: '(' :: cs :=
            (List.takeWhile_prefix _).isInfix.trans (List.suffix_cons _ _).isInfix
          have hfirst : behind <:+ '(' :: cs := by
            have hdrop := List.dropWhile_suffix isDecimal (l := cs)
            rw [hrun] at hdrop
            exact (List.suffix_cons _ _).trans (hdrop.trans (List.suffix_cons _ _))
          have hsecond : behind' <:+ '(' :: cs :=
            (List.suffix_cons _ _).trans ((List.suffix_append _ _).trans (hbin.trans hfirst))
          simp only [List.forall_mem_cons, List.not_mem_nil, false_imp_iff, implies_true, and_true]
          exact ⟨⟨ha, fun c hc => List.mem_takeWhile_imp hc⟩,
            ⟨(List.prefix_append _ _).isInfix.trans (hbin.trans hfirst).isInfix, hbdigits⟩,
            ⟨(List.prefix_append _ _).isInfix.trans (hcin.trans hsecond).isInfix, hcdigits⟩⟩
        · cases h
      · cases h
    · cases h
  · cases h

theorem tripleColor_ne_error {make : Int → Int → Int → Color} {t : List Char × List Char × List Char}
    (h : Numeral.ShortDecimals cs) (ht : tripleForm? cs = some t) (f : Numeral.Fault) :
    tripleColor make t ≠ .error f := by
  have hruns := runs_of_tripleForm? ht
  have hread : ∀ ds ∈ [t.1, t.2.1, t.2.2], Numeral.read ds = .ok (decimalValue ds) :=
    fun ds hds => h.read_eq_ok (hruns ds hds).1 (hruns ds hds).2
  unfold tripleColor
  rw [hread t.1 (by simp), hread t.2.1 (by simp), hread t.2.2 (by simp)]
  nofun

theorem ofExpression_ne_error (h : Numeral.ShortDecimals cs) (f : Numeral.Fault) : ofExpression cs ≠ .error f := by
  have htrim : trim cs <:+: cs := (prefix_trimRight _).isInfix.trans (List.dropWhile_suffix _).isInfix
  have hcs := h.of_infix htrim
  unfold ofExpression
  dsimp only
  split
  · rename_i rest hrest
    rw [hrest] at hcs
    split
    · exact tripleColor_ne_error (hcs.of_infix (List.suffix_append ['r', 'g', 'b'] rest).isInfix) ‹_› f
    · nofun
  · rename_i rest hrest
    rw [hrest] at hcs
    split
    · exact tripleColor_ne_error (hcs.of_infix (List.suffix_append ['h', 's', 'b'] rest).isInfix) ‹_› f
    · nofun
  · nofun

end Color

namespace Document

variable {s : Settings} {l : Line} {t : Tail} {line : List Char}

/-! ## Lines -/

/-- The count of a ring is a run of digits of its line. -/
theorem run_of_ringForm? {form : RingForm} (h : ringForm? line = some form) :
    form.count <:+: line ∧ ∀ c ∈ form.count, isDecimal c = true := by
  simp only [ringForm?, Option.bind_eq_bind, Option.bind_eq_some_iff] at h
  obtain ⟨r1, h1, ⟨radius, r2⟩, h2, r3, h3, h⟩ := h
  split at h
  · cases h
  · simp only [Option.bind_eq_some_iff] at h
    obtain ⟨r4, h4, pattern, htail, h⟩ := h
    cases h
    have hsuffix : trimLeft r3 <:+ line := (List.dropWhile_suffix _).trans
      ((suffix_of_isPrefixOf? h3).trans ((suffix_of_splitRadius? h2).trans (suffix_of_isPrefixOf? h1)))
    exact ⟨(List.takeWhile_prefix _).isInfix.trans hsuffix.isInfix, fun c hc => List.mem_takeWhile_imp hc⟩

theorem Tail.StandsIn.isInfix (h : t.StandsIn line) : t.text <:+: line := by
  obtain ⟨front, back, hline, -⟩ := h
  exact ⟨front, back, hline.symm⟩

theorem patternOf_ne_numeral (h : Numeral.ShortDecimals t.text) (f : Numeral.Fault) :
    patternOf s l t ≠ .error (.numeral f) := by
  intro hpattern
  unfold patternOf at hpattern
  split at hpattern
  · cases hpattern
  · rename_i hparse
    refine Pattern.not_shortRuns_of_parse hparse ?_
    rw [String.toList_ofList]
    exact h.shortRuns
  · cases hpattern

theorem ringOf_ne_numeral (h : Numeral.ShortDecimals l.text) (f : Numeral.Fault) :
    ringOf s l ≠ .error (.numeral f) := by
  intro hring
  unfold ringOf at hring
  split at hring
  · cases hring
  · rename_i form hform
    split at hring
    · cases hring
    · obtain ⟨hcount, hdigits⟩ := run_of_ringForm? hform
      rw [h.read_eq_ok hcount hdigits] at hring
      dsimp only at hring
      split at hring
      · rename_i hpattern
        cases hring
        unfold ringPatternOf at hpattern
        split at hpattern
        · cases hpattern
        · have hstands := (standsIn_of_ringForm? hform).cut (prefix_splitColors _)
          exact patternOf_ne_numeral (h.of_infix hstands.isInfix) f hpattern
      · cases hring

theorem variableLine_ne_numeral (h : Numeral.ShortDecimals l.text) (d : Document) (f : Numeral.Fault) :
    (variableLine s d l).fault? ≠ some (.numeral f) := by
  intro hfault
  unfold variableLine at hfault
  split at hfault
  · cases hfault
  · rename_i form hform
    split at hfault
    · rename_i hpattern
      cases hfault
      exact patternOf_ne_numeral (h.of_infix (standsIn_of_variableForm? hform).isInfix) f hpattern
    · cases hfault

theorem paletteLine_ne_numeral (h : Numeral.ShortDecimals l.text) (d : Document) (f : Numeral.Fault) :
    (paletteLine d l).fault? ≠ some (.numeral f) := by
  intro hfault
  unfold paletteLine at hfault
  split at hfault
  · cases hfault
  · rename_i form hform
    split at hfault
    · rename_i hcolor
      exact Color.ofExpression_ne_error (h.of_infix (standsIn_of_paletteForm? hform).isInfix) _ hcolor
    · cases hfault
    · cases hfault

theorem lineFault?_ne_numeral (h : Numeral.ShortDecimals l.text) (sec? : Option Section) (f : Numeral.Fault) :
    lineFault? s sec? l ≠ some (.numeral f) := by
  intro hfault
  have hentry : (entryLine s {} l sec?).fault? ≠ some (.numeral f) := by
    rcases sec? with - | _ | _ | _ | _ | _
    · unfold entryLine looseLine
      dsimp only
      split
      · rename_i hring
        exact absurd hring (ringOf_ne_numeral h _)
      all_goals nofun
    · unfold entryLine ringLine
      dsimp only
      split
      · rename_i hring
        rintro ⟨⟩
        exact ringOf_ne_numeral h _ hring
      all_goals nofun
    · nofun
    · nofun
    · exact variableLine_ne_numeral h {} f
    · exact paletteLine_ne_numeral h {} f
  unfold lineFault? passLine at hfault
  split at hfault
  · cases hfault
  · split at hfault
    · cases hfault
    · split at hfault
      · cases hfault
      · exact hentry hfault

/-! ## Documents -/

/-- A fault of a document is one of a line, in the section where that stands. -/
theorem exists_fault_of_parse {source : String} {f : Fault} (h : parse s source = .error f) :
    ∃ sec? l, l ∈ Line.ofSource source.toList ∧ lineFault? s sec? l = some f := by
  have hfault : (pass s none {} (Line.ofSource source.toList)).fault? = some f := by
    rw [parse_eq_result, Outcome.result] at h
    split at h
    · rename_i hfault
      rw [hfault, Except.error.inj h]
    · cases h
  rw [fault_pass] at hfault
  obtain ⟨⟨sec?, l⟩, hmem, hline⟩ := List.exists_of_findSome?_eq_some hfault
  exact ⟨sec?, l, mem_of_mem_inSections hmem, hline⟩

/-- **Where no run of digits is too long, all numbers of a document are read.** -/
theorem parse_ne_numeral {source : String} (h : Numeral.ShortDecimals source.toList) (f : Numeral.Fault) :
    parse s source ≠ .error (.numeral f) := by
  intro hparse
  obtain ⟨sec?, l, hl, hfault⟩ := exists_fault_of_parse hparse
  obtain ⟨before, behind, hsource, -⟩ := standsIn_of_mem_ofSource hl
  exact lineFault?_ne_numeral (h.of_infix ⟨before, behind, hsource.symm⟩) sec? f hfault

end Document

end Rosette
