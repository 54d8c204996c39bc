import Rosette.Proofs.Location
import Rosette.Proofs.Token.Lexeme
import Rosette.Token.Walk

/-!
# Where a walk has come to

Line, column and offset are counted apart from each other, in many places. They agree because a line feed is never
stepped over as one more column: it is no mark and no quote, and no word or number goes over it. So the scanner always
stands behind what it has read, at the place counted out over that text (`Tracks`), and with it every token it makes.

The walk finds the tokens of the scan by lexemes (`walk_eq_run`). Main result: `walk_counts`.
-/

namespace Rosette

theorem Location.advance_of_ne {c : Char} (h : c ≠ '\n') (p : Location) : p.advance c = p.nextColumn := if_neg h

namespace Token

theorem isBlank_eq_false_of_read? {c : Char} {cs : List Char} {l : Lexeme} (h : Lexeme.read? (c :: cs) = some l) :
    Text.isBlank c = false := by
  by_contra hblank
  rw [Bool.not_eq_false] at hblank
  rw [read?_of_isLoose (.inl hblank)] at h
  cases h

/-- A line feed begins no lexeme. -/
theorem ne_lineFeed_of_read? {c : Char} {cs : List Char} {l : Lexeme} (h : Lexeme.read? (c :: cs) = some l) :
    c ≠ '\n' := by
  rintro rfl
  exact absurd (isBlank_eq_false_of_read? h) (by decide)

namespace Scanner

variable {source cs : List Char} {c : Char} {p : Location} {s : Scanner}

/-! ## What each way of reading does -/

/-- A run of a class without the line feed. -/
theorem readWhile_eq (accept : Char → Bool) (h : accept '\n' = false) (cs : List Char) (p : Location) :
    readWhile accept cs p = (cs.takeWhile accept, ⟨cs.dropWhile accept, p.after (cs.takeWhile accept)⟩) := by
  induction cs generalizing p with
  | nil => rfl
  | cons c cs ih =>
    rw [readWhile]
    split
    · rename_i hc
      have hne : c ≠ '\n' := by
        rintro rfl
        rw [h] at hc
        cases hc
      rw [ih, List.takeWhile_cons_of_pos hc, List.dropWhile_cons_of_pos hc, Location.after_cons,
        Location.advance_of_ne hne]
    · rename_i hc
      rw [List.takeWhile_cons_of_neg hc, List.dropWhile_cons_of_neg hc, Location.after_nil]

/-- A quoted text may hold line feeds, and the lines are counted. -/
theorem readQuoted_eq (quote : Char) (cs : List Char) (p : Location) :
    readQuoted quote cs p =
      (cs.takeWhile (· != quote), ⟨cs.dropWhile (· != quote), p.after (cs.takeWhile (· != quote))⟩) := by
  induction cs generalizing p with
  | nil => rfl
  | cons c cs ih =>
    rw [readQuoted, List.takeWhile_cons, List.dropWhile_cons]
    by_cases hc : c = quote
    · have hstop : ¬ (c != quote) = true := by simp [hc]
      rw [if_pos hc, if_neg hstop, if_neg hstop, Location.after_nil]
    · have hgo : (c != quote) = true := by simp [hc]
      rw [if_neg hc, if_pos hgo, if_pos hgo, ih, Location.after_cons]
      rfl

theorem close_eq (h : ∀ d ∈ cs.head?, d ≠ '\n') (p : Location) : close ⟨cs, p⟩ = ⟨cs.drop 1, p.after (cs.take 1)⟩ := by
  cases cs with
  | nil => rfl
  | cons d cs =>
    rw [close, List.take_succ_cons, List.take_zero, Location.after_cons, Location.after_nil,
      Location.advance_of_ne (h d rfl)]
    rfl

/-! ## One step -/

/-- Where no lexeme begins, one character is passed over. -/
theorem next_of_skip (h : Lexeme.read? (c :: cs) = none) (p : Location) : next c cs p = (none, ⟨cs, p.advance c⟩) := by
  rw [next]
  by_cases hblank : Text.isBlank c = true
  · rw [if_pos hblank]
    rfl
  · have hne : c ≠ '\n' := by
      rintro rfl
      exact hblank (by decide)
    obtain hbad | hno := Lexeme.isLoose_of_read? h
    · exact absurd hbad hblank
    simp only [IsQuote, not_or, Option.not_isSome_iff_eq_none] at hno
    obtain ⟨⟨hdouble, hsingle⟩, hmark, halpha, hdigit⟩ := hno
    simp only [if_neg hblank, hmark, hdouble, hsingle, halpha, hdigit, decide_false, Bool.or_false, Bool.false_eq_true,
      if_false, Location.advance_of_ne hne]

theorem next_mark {k : Kind} (h : punctuation? c = some k) (cs : List Char) (p : Location) :
    next c cs p = (some ⟨k, String.ofList [c], p⟩, ⟨cs, p.after [c]⟩) := by
  have hread := Lexeme.read?_punctuation h cs
  rw [Location.after_cons, Location.after_nil, Location.advance_of_ne (ne_lineFeed_of_read? hread)]
  simp only [next, isBlank_eq_false_of_read? hread, Bool.false_eq_true, if_false, h]

theorem next_quote (h : c = '"' ∨ c = '\'') (cs : List Char) (p : Location) :
    next c cs p = (some ⟨.string, String.ofList (cs.takeWhile (· != c)), p⟩,
      ⟨(cs.dropWhile (· != c)).drop 1, p.after (c :: cs.takeWhile (· != c) ++ (cs.dropWhile (· != c)).take 1)⟩) := by
  have hread := Lexeme.read?_quote h cs
  have hne := ne_lineFeed_of_read? hread
  have hmark : punctuation? c = none := by rcases h with rfl | rfl <;> rfl
  have hquote : (c = '"' || c = '\'') = true := by simpa using h
  -- what stands behind the value is the quote again, and that is no line feed
  have hclose : ∀ d ∈ (cs.dropWhile (· != c)).head?, d ≠ '\n' := by
    intro d hd
    have hstop := Text.head?_dropWhile_eq_false d hd
    rw [bne_eq_false_iff_eq] at hstop
    exact hstop ▸ hne
  simp only [next, isBlank_eq_false_of_read? hread, Bool.false_eq_true, if_false, hmark, hquote, if_true, readQuoted_eq,
    close_eq hclose, List.cons_append, Location.after_cons, Location.after_append, Location.advance_of_ne hne]

theorem next_digit (h : c.isDigit = true) (cs : List Char) (p : Location) :
    next c cs p = (some ⟨.number, String.ofList ((c :: cs).takeWhile Char.isDigit), p⟩,
      ⟨(c :: cs).dropWhile Char.isDigit, p.after ((c :: cs).takeWhile Char.isDigit)⟩) := by
  have hal := Text.isAlphanum_of_isDigit h
  simp only [next, Text.isBlank_of_isAlphanum hal, Bool.false_eq_true, if_false, punctuation?_of_isAlphanum hal,
    if_neg (not_quote_of_isAlphanum hal), if_pos h, readWhile_eq Char.isDigit rfl]

theorem next_letter (h : c.isAlpha = true) (cs : List Char) (p : Location) :
    next c cs p =
      (some ⟨if isKeyword ((c :: cs).takeWhile Char.isAlphanum) then .identifier else .symbol,
        String.ofList ((c :: cs).takeWhile Char.isAlphanum), p⟩,
      ⟨(c :: cs).dropWhile Char.isAlphanum, p.after ((c :: cs).takeWhile Char.isAlphanum)⟩) := by
  have hal := Text.isAlphanum_of_isAlpha h
  simp only [next, Text.isBlank_of_isAlphanum hal, Bool.false_eq_true, if_false, punctuation?_of_isAlphanum hal,
    if_neg (not_quote_of_isAlphanum hal), isDigit_eq_false_of_isAlpha h, if_pos h, readWhile_eq Char.isAlphanum rfl]

/-- Where a lexeme begins, it is read, and the scanner stands behind it. -/
theorem next_of_lexeme {l : Lexeme} {behind : List Char} (hcs : l.span ++ behind = c :: cs)
    (h : Lexeme.read? (c :: cs) = some l) (p : Location) :
    next c cs p = (some ⟨l.kind, String.ofList l.value, p⟩, ⟨behind, p.after l.span⟩) := by
  obtain ⟨k, hk⟩ | hq | hd | ha | ⟨-, hn⟩ := Lexeme.read?_cases c
  · rw [Lexeme.read?_punctuation hk] at h
    cases h
    cases hcs
    exact next_mark hk behind p
  · rw [Lexeme.read?_quote hq] at h
    cases h
    have hspan : (c :: cs.takeWhile (· != c) ++ (cs.dropWhile (· != c)).take 1) ++ (cs.dropWhile (· != c)).drop 1 =
        c :: cs := by
      rw [List.append_assoc, List.take_append_drop, List.cons_append, List.takeWhile_append_dropWhile]
    rw [next_quote hq, List.append_cancel_left (hcs.trans hspan.symm)]
  · rw [Lexeme.read?_digit hd] at h
    cases h
    rw [next_digit hd, List.append_cancel_left (hcs.trans List.takeWhile_append_dropWhile.symm)]
  · rw [Lexeme.read?_letter ha] at h
    cases h
    rw [next_letter ha, List.append_cancel_left (hcs.trans List.takeWhile_append_dropWhile.symm)]
  · rw [hn] at h
    cases h

/-! ## The whole walk -/

theorem walk_nil (p : Location) : walk ⟨[], p⟩ = ([endAt p], ⟨[], p⟩) := by rw [walk]

theorem walk_cons (c : Char) (cs : List Char) (p : Location) :
    walk ⟨c :: cs, p⟩ = ((next c cs p).1.toList ++ (walk (next c cs p).2).1, (walk (next c cs p).2).2) := by
  rw [walk]

/-- **The walk is the scan**: character by character the same tokens are found as lexeme by lexeme. -/
theorem walk_eq_run (s : Scanner) : s.walk = s.run := by
  obtain ⟨cs, p⟩ := s
  induction cs using scan_induction generalizing p with
  | nil => simp [walk_nil, run]
  | skip c cs h ih =>
    simp only [walk_cons, next_of_skip h, ih, run, scan_skip h]
    rfl
  | lexeme l cs h ih =>
    obtain ⟨c, span, hspan⟩ := List.exists_cons_of_ne_nil (Lexeme.span_prefix h).2
    have hcons : l.span ++ cs = c :: (span ++ cs) := by rw [hspan, List.cons_append]
    have hstep := next_of_lexeme hcons (hcons ▸ h) p
    have hscan := scan_lexeme h p
    rw [hcons] at hscan ⊢
    simp only [walk_cons, hstep, ih, run, hscan]
    rfl

/-! ## What is counted -/

/-- The scanner stands behind a part of the source, at the place counted out over that part. -/
def Tracks (source : List Char) (s : Scanner) : Prop :=
  ∃ read, source = read ++ s.rest ∧ s.location = Location.start.after read

theorem tracks_start (source : List Char) : Tracks source ⟨source, .start⟩ := ⟨[], rfl, rfl⟩

theorem Tracks.isPlaceIn (h : Tracks source s) : s.location.IsPlaceIn source := by
  obtain ⟨read, hsource, hlocation⟩ := h
  rw [hsource, hlocation]
  exact Location.isPlaceIn_after read s.rest

/-- What is read next moves the place over itself. -/
theorem Tracks.over {span rest : List Char} (h : Tracks source ⟨span ++ rest, p⟩) :
    Tracks source ⟨rest, p.after span⟩ := by
  obtain ⟨read, hsource, hlocation⟩ := h
  dsimp only at hsource hlocation
  exact ⟨read ++ span, by rw [hsource, List.append_assoc], by rw [hlocation, Location.after_append]⟩

/-- One step keeps the count, and a token that it makes is placed where the step began. -/
theorem Tracks.next (h : Tracks source ⟨c :: cs, p⟩) :
    Tracks source (next c cs p).2 ∧ ∀ t ∈ (Scanner.next c cs p).1, t.location = p := by
  cases hread : Lexeme.read? (c :: cs) with
  | none =>
    rw [next_of_skip hread]
    have hone : Tracks source ⟨[c] ++ cs, p⟩ := h
    exact ⟨hone.over, by simp⟩
  | some l =>
    obtain ⟨⟨behind, hcs⟩, -⟩ := Lexeme.span_prefix hread
    rw [next_of_lexeme hcs hread]
    rw [← hcs] at h
    refine ⟨h.over, ?_⟩
    rintro t ⟨⟩
    rfl

/-- A walk keeps the count to its end, and every token that it makes is placed where the count was then. -/
theorem Tracks.walk (h : Tracks source s) :
    Tracks source s.walk.2 ∧ ∀ t ∈ s.walk.1, ∃ s' : Scanner, Tracks source s' ∧ t.location = s'.location := by
  induction s using Scanner.walk.induct with
  | case1 p =>
    rw [walk_nil]
    exact ⟨h, by simpa [endAt] using ⟨_, h, rfl⟩⟩
  | case2 c cs p _ _ _ ih =>
    obtain ⟨hnext, hplace⟩ := h.next
    obtain ⟨hstop, htokens⟩ := ih hnext
    rw [walk_cons]
    refine ⟨hstop, fun t ht => ?_⟩
    rw [List.mem_append, Option.mem_toList] at ht
    rcases ht with ht | ht
    · exact ⟨_, h, hplace t ht⟩
    · exact htokens t ht

/-- **Lines and columns are counted out**: the walk over a source makes its tokens, and the line of each is one more
than the line feeds before its offset, its column one more than the characters behind the last of them. -/
theorem walk_counts (source : String) :
    (walk ⟨source.toList, .start⟩).1 = tokenize source ∧ ∀ t ∈ tokenize source, t.location.IsPlaceIn source.toList := by
  have hwalk : (walk ⟨source.toList, .start⟩).1 = tokenize source := by
    rw [walk_eq_run]
    rfl
  refine ⟨hwalk, fun t ht => ?_⟩
  rw [← hwalk] at ht
  obtain ⟨s, hs, hlocation⟩ := (tracks_start source.toList).walk.2 t ht
  rw [hlocation]
  exact hs.isPlaceIn

end Scanner

end Token

end Rosette
