import Rosette.Proofs.Pattern.Grammar
import Rosette.Proofs.Pattern.Word
import Rosette.Proofs.Text.Trim

/-!
# Texts that spell patterns

`Spells n cs ps` says that the tokens of `cs`, wherever it stands, derive `ps`. Each way of putting texts together
that the writer has (a word, a bare number, members side by side, a sequence, a call) has one lemma here that
puts together what they spell.
-/

namespace Rosette.Pattern

open Token Writing

/-- A character of a written pattern. -/
def IsTextChar (c : Char) : Prop := c.isAlphanum = true ∨ c ∈ ['$', '@', '(', ')', ',', ':', ' ']

/-- The tokens of the text are an `n` that means the patterns `ps`. The text is a trimmed one of characters of
written patterns. -/
structure Spells (n : Nonterminal) (cs : List Char) (ps : List Pattern) : Prop where
  derives : ∀ l, Derives n (scan l cs).1 ps
  chars : ∀ c ∈ cs, IsTextChar c
  trimmed : Text.Trimmed cs

variable {cs ds : List Char} {p q : Pattern} {ps qs : List Pattern} {n m : Nonterminal}

theorem Spells.imp (h : Spells n cs ps) (himp : ∀ ts, Derives n ts ps → Derives m ts qs) : Spells m cs qs :=
  ⟨fun l => himp _ (h.derives l), h.chars, h.trimmed⟩

theorem IsTextChar.not_quote {c : Char} (h : IsTextChar c) : c ≠ '"' ∧ c ≠ '\'' := by
  rcases h with h | h
  · simpa using not_quote_of_isAlphanum h
  · constructor <;> (rintro rfl; simp at h)

/-- There are no quotes in a written pattern. -/
theorem Spells.closed (h : Spells n cs ps) : openQuote none cs = none :=
  openQuote_of_plain fun c hc => (h.chars c hc).not_quote

theorem Derives.call {t opening closing : Token} {ts : List Token} {name : String} (ht : t.kind = .identifier)
    (ho : opening.kind = .lparen) (hc : closing.kind = .rparen)
    (hname : String.ofList (Text.foldAscii t.value.toList) = name) (h : Derives .arguments ts ps) :
    Derives .command (t :: opening :: (ts ++ [closing])) [.command name ps .absent] := by
  subst hname
  exact .command ht ho hc h

theorem Derives.oneMember {ts : List Token} (h : Derives .member ts [p]) : Derives .members ts [p] := by
  have hd := Derives.moreMembers h .noMembers
  rwa [List.append_nil] at hd

theorem Derives.members_append {ts us : List Token} (h : Derives .members ts ps) (h' : Derives .members us qs) :
    Derives .members (ts ++ us) (ps ++ qs) := by
  generalize hn : Nonterminal.members = n at h
  induction h with
  | noMembers => exact h'
  | moreMembers d ds _ ih =>
    rw [List.append_assoc]
    exact .moreMembers d (ih rfl)
  | _ => cases hn

theorem Derives.ne_nil {ts : List Token} (h : Derives n ts ps) (hm : n ≠ .members) (ha : n ≠ .arguments) :
    ts ≠ [] := by
  induction h with
  | noMembers | moreMembers => exact absurd rfl hm
  | noArguments | lastArgument | moreArguments => exact absurd rfl ha
  | symbol | sequence | command | argumentReference | argumentNumber | counted => simp
  | memberSymbol _ ih | memberCommand _ ih | argumentSequence _ ih | argumentCommand _ ih | argumentSymbol _ ih
  | patternSequence _ ih | patternCommand _ ih | patternSymbol _ ih | plain _ ih => exact ih (by simp) (by simp)

theorem Derives.members_eq_nil (h : Derives .members [] ps) : ps = [] := by
  generalize hts : ([] : List Token) = ts at h
  cases h with
  | noMembers => rfl
  | moreMembers d _ => exact absurd (List.append_eq_nil_iff.1 hts.symm).1 (d.ne_nil (by simp) (by simp))

theorem Spells.ne_nil (h : Spells n cs ps) (hm : n ≠ .members) (ha : n ≠ .arguments) : cs ≠ [] := by
  rintro rfl
  have hd := h.derives .start
  rw [scan_nil] at hd
  exact hd.ne_nil hm ha rfl

/-! ## Single tokens -/

theorem trimmed_of_isAlphanum (h : ∀ c ∈ cs, c.isAlphanum = true) : Text.Trimmed cs :=
  .of_all fun c hc => Text.isBlank_of_isAlphanum (h c hc)

/-- A word that is no keyword spells its pattern. -/
theorem spells_word (hw : IsWord cs) (hk : isKeyword cs = false) (hp : ofWord cs = .ok p) : Spells .symbol cs [p] := by
  refine ⟨fun l => ?_, fun c hc => .inl (hw.2 c hc), trimmed_of_isAlphanum hw.2⟩
  rw [scan_word hw, hk]
  exact .symbol rfl (by rwa [String.toList_ofList])

/-- A row of letters spells a symbol if there is one, and a sequence if there are more. -/
theorem spells_letters (h : ∀ p ∈ ps, p.IsWrittenLetter) (hne : ps ≠ []) :
    ∃ cs, wordText ps = .ok cs ∧ ∀ p, (∀ cs, wordSymbols cs = .ok ps → ofWord cs = .ok p) → Spells .symbol cs [p] := by
  obtain ⟨cs, htext, hsymbols, hhead, hchars, hcs⟩ := wordText_letters h
  refine ⟨cs, htext, fun p hp => spells_word ?_ (isKeyword_eq_false fun c hc => (hchars c hc).2) (hp cs hsymbols)⟩
  obtain ⟨c, ds, rfl⟩ := List.exists_cons_of_ne_nil (hcs hne)
  exact ⟨⟨c, ds, rfl, hhead c rfl⟩, fun d hd => (hchars d hd).1⟩

theorem spells_letter {char : String} {rotated : Bool} {n : Count} (h : IsWrittenLetter (.symbol char rotated n)) :
    ∃ cs, symbolText char rotated n = .ok cs ∧ Spells .symbol cs [.symbol char rotated n] := by
  have hall : ∀ p ∈ [Pattern.symbol char rotated n], p.IsWrittenLetter := by simpa using h
  obtain ⟨cs, htext, hspells⟩ := spells_letters hall (by simp)
  exact ⟨cs, symbolText_letter htext, hspells _ fun _ => ofWord_of_wordSymbols_singleton⟩

/-- A word without stroke letters spells itself. -/
theorem spells_mute (h : IsMute cs) :
    symbolText (String.ofList cs) false .absent = .ok cs ∧
      Spells .symbol cs [.symbol (String.ofList cs) false .absent] := by
  obtain ⟨hw, hk, hfold, hnone⟩ := h
  constructor
  · have hmark : String.ofList cs ≠ Stroke.solidMark := by
      intro heq
      obtain ⟨⟨c, ds, rfl, hc⟩, -⟩ := hw
      have hcons : c :: ds = ['-'] := by simpa [Stroke.solidMark] using congrArg String.toList heq
      cases hcons
      cases hc
    rw [symbolText, if_neg hmark]
    simp [Count.isAbsent, Stroke.letterText]
  · refine spells_word hw hk ?_
    have hascii : ∀ c ∈ cs, c.toNat < 128 := fun c hc => by
      have := Text.isAlphanum_iff_toNat.1 (hw.2 c hc)
      omega
    rw [ofWord, wordSymbols_eq_nil hnone, Text.lower_of_ascii hascii, hfold]

/-- A bare number spells that many spacers, as an argument. -/
theorem spells_number {k : Nat} (h : Numeral.fits k = true) :
    Spells .argument (Numeral.digits k) [.symbol Stroke.spacerLetter false (.times k)] := by
  refine ⟨fun l => ?_, fun c hc => .inl ((Numeral.isRun_digits k).isAlphanum c hc),
    trimmed_of_isAlphanum (Numeral.isRun_digits k).isAlphanum⟩
  rw [scan_number (Numeral.isRun_digits k)]
  exact .argumentNumber rfl (by rw [String.toList_ofList, Numeral.read_digits h])

theorem spells_reference {name : String} (h : IsWord name.toList) :
    Spells .argument ('@' :: name.toList) [.reference name] := by
  constructor
  · intro l
    rw [scan_mark (k := .atSign) rfl, scan_word h, String.ofList_toList]
    refine .argumentReference rfl ?_
    cases isKeyword name.toList
    · exact .inl rfl
    · exact .inr rfl
  · exact List.forall_mem_cons.2 ⟨.inr (by simp), fun c hc => .inl (h.2 c hc)⟩
  · exact .append (a := ['@']) (.of_check (by decide)) (trimmed_of_isAlphanum h.2)

/-! ## Texts side by side -/

theorem spells_noMembers : Spells .members [] [] := ⟨fun l => by simpa using .noMembers, by simp, Text.trimmed_nil⟩

/-- Texts side by side stay apart: there is a space between them where they would merge. -/
theorem glue_cases (cs ds : List Char) :
    (Writing.glue cs ds = cs ++ ds ∧ Apart cs ds) ∨ (Writing.glue cs ds = cs ++ ' ' :: ds ∧ cs ≠ [] ∧ ds ≠ []) := by
  unfold Writing.glue
  split
  · rename_i a b ha hb
    split
    · refine .inr ⟨rfl, ?_, ?_⟩
      · rintro rfl
        cases ha
      · rintro rfl
        cases hb
    · rename_i hab
      refine .inl ⟨rfl, fun x hx y hy hxy => hab ?_⟩
      rw [Option.mem_def, ha] at hx
      rw [Option.mem_def, hb] at hy
      cases hx
      cases hy
      rw [Text.isAlphanumeric_of_isAlphanum hxy.1, Text.isAlphanumeric_of_isAlphanum hxy.2]
      rfl
  · rename_i hnone
    exact .inl ⟨rfl, fun x hx y hy => (hnone x y hx hy).elim⟩

theorem scan_glue (hq : openQuote none cs = none) (ds : List Char) (l : Location) :
    ∃ l', (scan l (Writing.glue cs ds)).1 = (scan l cs).1 ++ (scan l' ds).1 := by
  obtain ⟨hglue, hap⟩ | ⟨hglue, -, -⟩ := glue_cases cs ds
  · exact ⟨_, by rw [hglue, scan_append hq hap]⟩
  · exact ⟨_, by rw [hglue, scan_append hq (.of_head (by simp)), scan_space]⟩

theorem mem_glue {c : Char} (h : c ∈ Writing.glue cs ds) : c ∈ cs ∨ c = ' ' ∨ c ∈ ds := by
  obtain ⟨hglue, -⟩ | ⟨hglue, -⟩ := glue_cases cs ds
  · rw [hglue, List.mem_append] at h
    exact h.imp_right .inr
  · rwa [hglue, List.mem_append, List.mem_cons] at h

/-- Members side by side. -/
theorem Spells.glue (h : Spells .members cs ps) (h' : Spells .members ds qs) :
    Spells .members (Writing.glue cs ds) (ps ++ qs) := by
  refine ⟨fun l => ?_, fun c hc => ?_, ?_⟩
  · obtain ⟨l', hl'⟩ := scan_glue h.closed ds l
    rw [hl']
    exact (h.derives l).members_append (h'.derives l')
  · obtain hc | rfl | hc := mem_glue hc
    · exact h.chars c hc
    · exact .inr (by simp)
    · exact h'.chars c hc
  · obtain ⟨hglue, -⟩ | ⟨hglue, hcs, hds⟩ := glue_cases cs ds
    · rw [hglue]
      exact h.trimmed.append h'.trimmed
    · rw [hglue]
      have hall := h.trimmed.around h'.trimmed hcs hds [' ']
      rwa [List.append_assoc] at hall

theorem Spells.sequence (h : Spells .members cs ps) (hne : ps ≠ []) :
    Spells .sequence ('$' :: cs) [.sequence ps .absent] ∧ sequenceText cs = .ok ('$' :: cs) := by
  constructor
  · refine ⟨fun l => ?_, List.forall_mem_cons.2 ⟨.inr (by simp), h.chars⟩,
      .append (a := ['$']) (.of_check (by decide)) h.trimmed⟩
    rw [scan_mark (k := .dollar) rfl]
    have hd := h.derives (l.advance '$')
    generalize (scan (l.advance '$') cs).1 = ts at hd
    cases hd with
    | noMembers => exact absurd rfl hne
    | moreMembers d ds => exact .sequence rfl d ds
  · have hcs : cs ≠ [] := by
      rintro rfl
      have hd := h.derives .start
      rw [scan_nil] at hd
      exact hne hd.members_eq_nil
    rw [sequenceText, if_neg (by simpa using hcs)]

/-! ## Calls -/

theorem arguments_cons (cs ds : List Char) (parts : List (List Char)) :
    [',', ' '].intercalate (cs :: ds :: parts) = cs ++ ',' :: ' ' :: [',', ' '].intercalate (ds :: parts) := by
  simp [List.intercalate]

theorem scan_arguments (hq : openQuote none cs = none) (ds : List Char) (parts : List (List Char)) (l : Location) :
    ∃ (comma : Token) (l' : Location), comma.kind = .comma ∧ (scan l ([',', ' '].intercalate (cs :: ds :: parts))).1 =
      (scan l cs).1 ++ comma :: (scan l' ([',', ' '].intercalate (ds :: parts))).1 := by
  rw [arguments_cons, scan_append hq (.of_head (by simp)), scan_mark (k := .comma) rfl, scan_space]
  exact ⟨_, _, rfl, rfl⟩

theorem spells_arguments {parts : List (List Char)} {args : List Pattern}
    (h : List.Forall₂ (fun cs p => Spells .argument cs [p]) parts args) :
    Spells .arguments ([',', ' '].intercalate parts) args := by
  induction h with
  | nil => exact ⟨fun l => by simpa using .noArguments, by simp, Text.trimmed_nil⟩
  | @cons cs p parts args hp hrest ih =>
    cases hrest with
    | nil => simpa using hp.imp fun _ => .lastArgument
    | @cons ds q parts args hq hrest =>
      refine ⟨fun l => ?_, ?_, ?_⟩
      · obtain ⟨comma, l', hcomma, hscan⟩ := scan_arguments hp.closed ds parts l
        rw [hscan]
        exact .moreArguments (hp.derives l) hcomma (ih.derives l')
      · rw [arguments_cons]
        exact List.forall_mem_append.2 ⟨hp.chars, by simpa [IsTextChar] using ih.chars⟩
      · have hds : ds ≠ [] := hq.ne_nil (by simp) (by simp)
        have hrest : [',', ' '].intercalate (ds :: parts) ≠ [] := by
          obtain ⟨d, ds, rfl⟩ := List.exists_cons_of_ne_nil hds
          cases parts <;> simp [List.intercalate]
        have hall := hp.trimmed.around ih.trimmed (hp.ne_nil (by simp) (by simp)) hrest [',', ' ']
        rw [arguments_cons]
        rwa [List.append_assoc] at hall

/-- The name of a command is one word that is a keyword, in small letters. -/
theorem isWord_keyword {name : String} (h : name ∈ keywords) :
    IsWord name.toList ∧ isKeyword name.toList = true ∧ String.ofList (Text.foldAscii name.toList) = name := by
  have all : ∀ k ∈ keywords, (k.toList.head?.map Char.isAlpha) = some true ∧ k.toList.all Char.isAlphanum = true ∧
      Text.foldAscii k.toList = k.toList := by
    decide
  obtain ⟨hhead, hchars, hfold⟩ := all name h
  refine ⟨⟨?_, List.all_eq_true.1 hchars⟩, ?_, by rw [hfold, String.ofList_toList]⟩
  · cases hcs : name.toList with
    | nil => simp [hcs] at hhead
    | cons c cs => exact ⟨c, cs, rfl, by simpa [hcs] using hhead⟩
  · rw [isKeyword, hfold, String.ofList_toList]
    exact List.contains_iff_mem.2 h

theorem call_eq (name : List Char) (parts : List (List Char)) :
    Text.call name parts = name ++ '(' :: ([',', ' '].intercalate parts ++ [')']) := by
  simp [Text.call]

theorem scan_call {name : String} (hname : name ∈ keywords) {parts : List (List Char)}
    (hq : openQuote none ([',', ' '].intercalate parts) = none) (l : Location) :
    ∃ (opening closing : Token) (l' : Location), opening.kind = .lparen ∧ closing.kind = .rparen ∧
      (scan l (Text.call name.toList parts)).1 =
        ⟨.identifier, name, l⟩ :: opening :: ((scan l' ([',', ' '].intercalate parts)).1 ++ [closing]) := by
  obtain ⟨hw, hk, -⟩ := isWord_keyword hname
  rw [call_eq, scan_append (openQuote_of_alphanum hw.2) (.of_head (by simp)), scan_word hw, hk, if_pos rfl,
    String.ofList_toList]
  dsimp only
  rw [scan_mark (k := .lparen) rfl, scan_append hq (.of_head (by simp))]
  dsimp only
  rw [scan_mark (k := .rparen) rfl, scan_nil]
  exact ⟨_, _, _, rfl, rfl, rfl⟩

/-- A call of a command spells it with what its arguments spell. -/
theorem Spells.call {name : String} (hname : name ∈ keywords) {args : List Pattern} {parts : List (List Char)}
    (h : List.Forall₂ (fun cs p => Spells .argument cs [p]) parts args) :
    Spells .command (Text.call name.toList parts) [.command name args .absent] := by
  obtain ⟨hw, -, hfold⟩ := isWord_keyword hname
  have hargs := spells_arguments h
  refine ⟨fun l => ?_, ?_, ?_⟩
  · obtain ⟨opening, closing, l', ho, hc, hscan⟩ := scan_call hname hargs.closed l
    rw [hscan]
    exact .call rfl ho hc hfold (hargs.derives l')
  · rw [call_eq]
    refine List.forall_mem_append.2 ⟨fun c hc => .inl (hw.2 c hc), List.forall_mem_cons.2 ⟨.inr (by simp), ?_⟩⟩
    exact List.forall_mem_append.2 ⟨hargs.chars, by simp [IsTextChar]⟩
  · refine Text.Trimmed.around (trimmed_of_isAlphanum hw.2) (.of_check (by decide)) ?_ (by simp) _
    obtain ⟨c, cs, hcs, -⟩ := hw.1
    simp [hcs]

/-! ## Whole patterns -/

theorem Spells.plain (h : Spells .pattern cs [p]) : Spells .topLevel cs [p] := h.imp fun _ => .plain

theorem Spells.counted {k : Nat} (h : Spells .pattern cs [p]) (hk : Numeral.fits k = true) :
    Spells .topLevel (cs ++ ':' :: Numeral.digits k) [.elementCount p (.times k)] := by
  refine ⟨fun l => ?_, ?_, ?_⟩
  · rw [scan_append h.closed (.of_head (by simp)), scan_mark (k := .colon) rfl, scan_number (Numeral.isRun_digits k)]
    exact .counted (h.derives l) rfl rfl (by rw [String.toList_ofList, Numeral.read_digits hk])
  · refine List.forall_mem_append.2 ⟨h.chars, List.forall_mem_cons.2 ⟨.inr (by simp), ?_⟩⟩
    exact fun c hc => .inl ((Numeral.isRun_digits k).isAlphanum c hc)
  · refine h.trimmed.append (.append (a := [':']) (.of_check (by decide)) ?_)
    exact trimmed_of_isAlphanum (Numeral.isRun_digits k).isAlphanum

end Rosette.Pattern
