import Rosette.Pattern.Word
import Rosette.Pattern.Writing
import Rosette.Proofs.Numeral
import Rosette.Proofs.Token.Composition

/-!
# Words are read back

A row of stroke letters with counts that a text can write is read back from its word (`wordText_letters`), and a
word without stroke letters stays what it is (`ofWord_mute`). Neither is ever a keyword, because every keyword has
a letter that is no stroke letter.
-/

namespace Rosette

/-- A count that a text can write: none, or a natural number with few enough digits. -/
def Count.IsWritten (n : Count) : Prop := n = .absent ∨ ∃ k : Nat, n = .times k ∧ Numeral.fits k = true

theorem Count.eq_absent {n : Count} (h : n.isAbsent = true) : n = .absent := by
  cases n with
  | absent => rfl
  | times | other => cases h

namespace Stroke

/-- Every letter of the alphabet, upright or rotated, is one character that is read as that stroke. -/
theorem letterText_of_mem {char : String} (h : char ∈ alphabet) (rotated : Bool) :
    ∃ c, letterText char rotated = [c] ∧ c.isAlpha = true ∧ ofChar? c = some ⟨char, rotated⟩ := by
  have all : ∀ char ∈ alphabet, ∀ rotated : Bool, "dhlvxDHLVX".toList.any (fun c =>
      letterText char rotated = [c] ∧ c.isAlpha = true ∧ ofChar? c = some ⟨char, rotated⟩) = true := by
    decide
  obtain ⟨c, -, hc⟩ := List.any_eq_true.1 (all char h rotated)
  exact ⟨c, of_decide_eq_true hc⟩

theorem mem_alphabet_of_ofChar? {c : Char} {s : Stroke} (h : ofChar? c = some s) :
    String.singleton c.toLower ∈ alphabet ∧ s.char ∈ alphabet := by
  simp only [ofChar?] at h
  split at h
  · rename_i hc
    cases h
    have hmem := List.contains_iff_mem.1 hc
    exact ⟨hmem, hmem⟩
  · cases h

/-- A stroke letter is not the mark of a solid ring. -/
theorem ne_solidMark_of_mem {char : String} (h : char ∈ alphabet) : char ≠ solidMark := by
  rintro rfl
  exact absurd h (by decide)

end Stroke

namespace Pattern

open Writing

/-! ## Counts -/

theorem countText_times {k : Nat} (h : Numeral.fits k = true) :
    countText (.times k) = .ok (Numeral.digits k) := by
  have hwritten : (Count.times k).text = .ok (Numeral.digits k) := Numeral.write_natCast h
  rw [countText, hwritten]
  rfl

theorem countText_tooLong {k : Nat} (h : Numeral.fits k = false) :
    countText (.times k) = .error (.numeral .tooLong) := by
  have hwrite : (Count.times k).text = .error .tooLong := by
    change Numeral.write k = _
    simp [Numeral.write, h]
  rw [countText, hwrite]
  rfl

theorem countOfDigits_digits {k : Nat} (h : Numeral.fits k = true) :
    countOfDigits (Numeral.digits k) = .ok (.times k) := by
  have hne : (Numeral.digits k).isEmpty = false := by
    simpa using Numeral.digits_ne_nil k
  rw [countOfDigits, hne, Numeral.read_digits h]
  rfl

/-- The digits behind a letter say its count. -/
theorem symbolText_of_isWritten {n : Count} (h : n.IsWritten) :
    ∃ ds, (∀ d ∈ ds, d.isDigit = true) ∧ countOfDigits ds = .ok n ∧
      ∀ char rotated, char ≠ Stroke.solidMark →
        symbolText char rotated n = .ok (Stroke.letterText char rotated ++ ds) := by
  obtain rfl | ⟨k, rfl, hk⟩ := h
  · refine ⟨[], by simp, rfl, fun char rotated hchar => ?_⟩
    rw [symbolText, if_neg hchar, List.append_nil]
    rfl
  · refine ⟨Numeral.digits k, fun d => Numeral.isDigit_of_mem_digits, countOfDigits_digits hk,
      fun char rotated hchar => ?_⟩
    rw [symbolText, if_neg hchar, countText_times hk]
    rfl

/-- A count that was read from digits can be written. -/
theorem isWritten_of_countOfDigits {ds : List Char} {n : Count} (h : countOfDigits ds = .ok n) : n.IsWritten := by
  unfold countOfDigits at h
  split at h
  · cases h
    exact .inl rfl
  · cases hk : Numeral.read ds with
    | error f =>
      rw [hk] at h
      cases h
    | ok k =>
      rw [hk] at h
      cases h
      exact .inr ⟨k, rfl, Numeral.fits_of_read hk⟩

/-! ## Rows of letters -/

/-- A stroke letter with a count that a text can write. -/
def IsWrittenLetter (p : Pattern) : Prop :=
  ∃ char rotated n, p = .symbol char rotated n ∧ char ∈ Stroke.alphabet ∧ n.IsWritten

/-- The patterns of a word are letters. -/
theorem isWrittenLetter_of_mem_wordSymbols {cs : List Char} {ps : List Pattern} (h : wordSymbols cs = .ok ps) :
    ∀ p ∈ ps, p.IsWrittenLetter := by
  fun_induction wordSymbols cs generalizing ps with
  | case1 =>
    cases h
    simp
  | case2 c cs hc ih => exact ih h
  | case3 => cases h
  | case4 c cs s hc n hn ih =>
    cases hrest : wordSymbols (cs.dropWhile Text.isDigit) with
    | error f => simp [hrest, Except.map] at h
    | ok qs =>
      simp only [hrest, Except.map, Except.ok.injEq] at h
      subst h
      rintro p (_ | ⟨_, hp⟩)
      · exact ⟨_, _, _, rfl, (Stroke.mem_alphabet_of_ofChar? hc).2, isWritten_of_countOfDigits hn⟩
      · exact ih hrest p hp

theorem isDigit_of_isAlpha {c : Char} (h : c.isAlpha = true) : Text.isDigit c = false := by
  rw [Text.isDigit_of_ascii (Text.ascii_of_isAlphanum (Text.isAlphanum_of_isAlpha h)),
    Token.isDigit_eq_false_of_isAlpha h]

/-- One letter with its digits comes off the front of a word. -/
theorem wordSymbols_cons {c : Char} {s : Stroke} {ds cs : List Char} {n : Count} {ps : List Pattern}
    (hc : Stroke.ofChar? c = some s) (hds : ∀ d ∈ ds, d.isDigit = true) (hn : countOfDigits ds = .ok n)
    (hcs : ∀ d ∈ cs.head?, d.isAlpha = true) (hps : wordSymbols cs = .ok ps) :
    wordSymbols (c :: (ds ++ cs)) = .ok (.symbol s.char s.rotated n :: ps) := by
  have hrun : ∀ d ∈ ds, Text.isDigit d = true := fun d hd => by
    simp [Text.isDigit, Text.isDecimal_of_isDigit (hds d hd)]
  have hstop : ∀ d ∈ cs.head?, ¬ Text.isDigit d = true := by
    intro d hd
    simp [isDigit_of_isAlpha (hcs d hd)]
  rw [wordSymbols, hc]
  simp only
  rw [Text.takeWhile_append_of_head fun _ => hstop, Text.dropWhile_append_of_head fun _ => hstop,
    List.takeWhile_eq_self_iff.2 hrun, List.dropWhile_eq_nil_iff.2 hrun, hn, List.nil_append, hps]
  rfl

/-- A character of a word of stroke letters. -/
def IsWordChar (c : Char) : Prop := c.isDigit = true ∨ (Stroke.ofChar? c).isSome = true

/-- **Words are read back**: letters side by side make a word whose symbols are these letters. -/
theorem wordText_letters {ps : List Pattern} (h : ∀ p ∈ ps, p.IsWrittenLetter) :
    ∃ cs, wordText ps = .ok cs ∧ wordSymbols cs = .ok ps ∧ (∀ c ∈ cs.head?, c.isAlpha = true) ∧
      (∀ c ∈ cs, c.isAlphanum = true ∧ IsWordChar c) ∧ (ps ≠ [] → cs ≠ []) := by
  induction ps with
  | nil => exact ⟨[], rfl, by rw [wordSymbols], by simp, by simp, by simp⟩
  | cons p ps ih =>
    obtain ⟨cs, htext, hsymbols, hhead, hchars, -⟩ := ih fun q hq => h q (List.mem_cons_of_mem _ hq)
    obtain ⟨char, rotated, n, rfl, hchar, hn⟩ := h p List.mem_cons_self
    obtain ⟨c, hletter, halpha, hc⟩ := Stroke.letterText_of_mem hchar rotated
    obtain ⟨ds, hds, hcount, hsymbol⟩ := symbolText_of_isWritten hn
    have hmark := Stroke.ne_solidMark_of_mem hchar
    refine ⟨c :: (ds ++ cs), ?_, wordSymbols_cons hc hds hcount hhead hsymbols, by simpa using halpha, ?_, by simp⟩
    · rw [wordText]
      simp only [symbol?]
      rw [hsymbol char rotated hmark, hletter, htext]
      rfl
    · intro d hd
      rw [List.mem_cons, List.mem_append] at hd
      rcases hd with rfl | hd | hd
      · exact ⟨Text.isAlphanum_of_isAlpha halpha, .inr (by simp [hc])⟩
      · exact ⟨Text.isAlphanum_of_isDigit (hds d hd), .inl (hds d hd)⟩
      · exact hchars d hd

/-- The text of one letter is its word. -/
theorem symbolText_letter {char : String} {rotated : Bool} {n : Count} {cs : List Char}
    (h : wordText [.symbol char rotated n] = .ok cs) : symbolText char rotated n = .ok cs := by
  rw [wordText] at h
  simp only [symbol?, wordText] at h
  cases hs : symbolText char rotated n with
  | error f => simp [hs, Bind.bind, Except.bind] at h
  | ok t => simpa [hs, Bind.bind, Except.bind] using h

theorem ofWord_of_wordSymbols {cs : List Char} {p q : Pattern} {ps : List Pattern}
    (h : wordSymbols cs = .ok (p :: q :: ps)) : ofWord cs = .ok (.sequence (p :: q :: ps) .absent) := by
  rw [ofWord, h]

theorem ofWord_of_wordSymbols_singleton {cs : List Char} {p : Pattern} (h : wordSymbols cs = .ok [p]) :
    ofWord cs = .ok p := by
  rw [ofWord, h]

/-- What is written as one word has two members or more, and they are letters. -/
theorem letters_of_isWord {ps : List Pattern} (h : isWord ps = true) :
    (∃ p q qs, ps = p :: q :: qs) ∧ ∀ p ∈ ps, isLetter p = true := by
  rw [isWord, Bool.and_eq_true, decide_eq_true_eq, List.all_eq_true] at h
  obtain ⟨hlength, hletters⟩ := h
  obtain ⟨p, ps, rfl⟩ := List.exists_cons_of_length_pos (Nat.lt_of_succ_lt hlength)
  obtain ⟨q, qs, rfl⟩ := List.exists_cons_of_length_pos (Nat.lt_of_succ_lt_succ hlength)
  exact ⟨⟨p, q, qs, rfl⟩, hletters⟩

/-- A word of stroke letters and digits is no keyword. -/
theorem isKeyword_eq_false {cs : List Char} (h : ∀ c ∈ cs, IsWordChar c) : Token.isKeyword cs = false := by
  -- the letter of each keyword that is missing from the alphabet
  have all : ∀ k ∈ Token.keywords, k.toList.any (fun c =>
      c.isDigit = false ∧ String.singleton c ∉ Stroke.alphabet) = true := by
    decide
  rw [Token.isKeyword, ← Bool.not_eq_true]
  intro hk
  obtain ⟨c, hc, hmissing⟩ := List.any_eq_true.1 (all _ (List.contains_iff_mem.1 hk))
  obtain ⟨hdigit, hletter⟩ := of_decide_eq_true hmissing
  rw [String.toList_ofList, Text.foldAscii, List.mem_map] at hc
  obtain ⟨d, hd, rfl⟩ := hc
  rcases h d hd with hd' | hd'
  · rw [Text.toLower_of_isDigit hd', hd'] at hdigit
    cases hdigit
  · obtain ⟨s, hs⟩ := Option.isSome_iff_exists.1 hd'
    exact hletter (Stroke.mem_alphabet_of_ofChar? hs).1

/-! ## Words without letters -/

/-- A word in small letters that is no keyword and has no stroke letter. -/
def IsMute (w : List Char) : Prop :=
  Token.IsWord w ∧ Token.isKeyword w = false ∧ Text.foldAscii w = w ∧ ∀ c ∈ w, Stroke.ofChar? c = none

theorem wordSymbols_eq_nil {w : List Char} (h : ∀ c ∈ w, Stroke.ofChar? c = none) : wordSymbols w = .ok [] := by
  induction w with
  | nil => rw [wordSymbols]
  | cons c cs ih =>
    rw [wordSymbols, h c List.mem_cons_self]
    exact ih fun d hd => h d (List.mem_cons_of_mem _ hd)

theorem eq_none_of_wordSymbols {w : List Char} (h : wordSymbols w = .ok []) : ∀ c ∈ w, Stroke.ofChar? c = none := by
  fun_induction wordSymbols w with
  | case1 => simp
  | case2 c cs hc ih => exact List.forall_mem_cons.2 ⟨hc, ih h⟩
  | case3 => cases h
  | case4 c cs s hc n hn ih => cases hrest : wordSymbols (cs.dropWhile Text.isDigit) <;> simp [hrest, Except.map] at h

/-- A word without stroke letters is mute once it is in small letters. -/
theorem isMute_foldAscii {w : List Char} (hw : Token.IsWord w) (hk : Token.isKeyword w = false)
    (hnone : ∀ c ∈ w, Stroke.ofChar? c = none) : IsMute (Text.foldAscii w) := by
  have hascii : ∀ c ∈ w, c.toNat < 128 := fun c hc => Text.ascii_of_isAlphanum (hw.2 c hc)
  have htwice : Text.foldAscii (Text.foldAscii w) = Text.foldAscii w := by
    rw [Text.foldAscii, Text.foldAscii, List.map_map]
    exact List.map_congr_left fun c hc => (Text.toLower_ascii (hascii c hc)).1
  refine ⟨⟨?_, ?_⟩, ?_, htwice, ?_⟩
  · obtain ⟨⟨c, ds, rfl, hc⟩, -⟩ := hw
    exact ⟨c.toLower, ds.map Char.toLower, rfl, by rwa [(Text.toLower_ascii (hascii c List.mem_cons_self)).2.1]⟩
  · rintro d hd
    obtain ⟨c, hc, rfl⟩ := List.mem_map.1 hd
    rw [(Text.toLower_ascii (hascii c hc)).2.2]
    exact hw.2 c hc
  · rw [Token.isKeyword, htwice]
    exact hk
  · rintro d hd
    obtain ⟨c, hc, rfl⟩ := List.mem_map.1 hd
    have hn := hnone c hc
    simp only [Stroke.ofChar?] at hn ⊢
    rw [(Text.toLower_ascii (hascii c hc)).1]
    split at hn
    · cases hn
    · rename_i hletter
      rw [if_neg hletter]

end Pattern

end Rosette
