import Rosette.Proofs.Text.Ascii
import Rosette.Token.Scan

/-!
# Scanning a text in pieces

Where a text ends outside its quoted strings, and not in the middle of a word or a number, the tokens of a longer
text are those of the piece and those of the rest (`scan_append`). A word, a number and a mark each make one
token (`scan_word`, `scan_digits`, `scan_mark`), so that the tokens of a written text are put together from those
of its pieces.
-/

namespace Rosette.Token

/-! ## Where a text may be cut -/

/-- The quote that is open behind a character, given the one open before it. -/
def quoteAfter : Option Char → Char → Option Char
  | some q, c => if c = q then none else some q
  | none, c => if c = '"' || c = '\'' then some c else none

/-- The quote that is open behind a text, given the one open before it. -/
def openQuote (q : Option Char) (cs : List Char) : Option Char := cs.foldl quoteAfter q

/-- Whether a text may be followed by another without joining its last word or number. -/
def Apart (a b : List Char) : Prop :=
  ∀ x ∈ a.getLast?, ∀ y ∈ b.head?, ¬ (x.isAlphanum = true ∧ y.isAlphanum = true)

theorem openQuote_cons (q : Option Char) (c : Char) (cs : List Char) :
    openQuote q (c :: cs) = openQuote (quoteAfter q c) cs := rfl

theorem openQuote_append (q : Option Char) (a b : List Char) :
    openQuote q (a ++ b) = openQuote (openQuote q a) b := by
  simp [openQuote]

theorem openQuote_of_plain {cs : List Char} (h : ∀ c ∈ cs, c ≠ '"' ∧ c ≠ '\'') : openQuote none cs = none := by
  induction cs with
  | nil => rfl
  | cons c cs ih =>
    obtain ⟨h1, h2⟩ := h c List.mem_cons_self
    have hc : quoteAfter none c = none := by simp [quoteAfter, h1, h2]
    rw [openQuote_cons, hc]
    exact ih fun d hd => h d (List.mem_cons_of_mem _ hd)

theorem openQuote_some_of_not_mem {q : Char} {cs : List Char} (h : q ∉ cs) : openQuote (some q) cs = some q := by
  induction cs with
  | nil => rfl
  | cons c cs ih =>
    simp only [List.mem_cons, not_or] at h
    have hc : quoteAfter (some q) c = some q := by simp [quoteAfter, Ne.symm h.1]
    rw [openQuote_cons, hc]
    exact ih h.2

theorem Apart.suffix {a b c : List Char} (h : Apart (a ++ b) c) : Apart b c := by
  intro x hx y hy
  refine h x ?_ y hy
  rw [List.getLast?_append]
  rw [Option.mem_def] at hx ⊢
  simp [hx]

theorem Apart.of_head {a b : List Char} (h : ∀ y ∈ b.head?, y.isAlphanum = false) : Apart a b := by
  intro _ _ y hy hxy
  simp [h y hy] at hxy

/-- A run that fills a text is not gone on with behind it. -/
theorem Apart.head_of_all {p : Char → Bool} (hp : ∀ c, p c = true → c.isAlphanum = true) {a b : List Char}
    (ha : a ≠ []) (h : Apart a b) (hall : ∀ c ∈ a, p c = true) : ∀ y ∈ b.head?, ¬ p y = true := by
  intro y hy hpy
  exact h _ (List.getLast?_eq_some_getLast ha) y hy ⟨hp _ (hall _ (List.getLast_mem ha)), hp y hpy⟩

/-! ## One lexeme -/

theorem punctuation?_of_isAlphanum {c : Char} (h : c.isAlphanum = true) : punctuation? c = none := by
  unfold punctuation?
  split <;> first | rfl | simp at h

theorem not_quote_of_isAlphanum {c : Char} (h : c.isAlphanum = true) : ¬ (c = '"' || c = '\'') = true := by
  intro hc
  simp only [Bool.or_eq_true, decide_eq_true_eq] at hc
  rcases hc with rfl | rfl <;> simp at h

theorem isDigit_eq_false_of_isAlpha {c : Char} (h : c.isAlpha = true) : c.isDigit = false := by
  by_contra hd
  rw [Bool.not_eq_false, Text.isDigit_iff_toNat] at hd
  rw [Text.isAlpha_iff_toNat] at h
  omega

theorem openQuote_of_alphanum {cs : List Char} (h : ∀ c ∈ cs, c.isAlphanum = true) : openQuote none cs = none :=
  openQuote_of_plain fun c hc => by simpa using not_quote_of_isAlphanum (h c hc)

namespace Lexeme

theorem read?_punctuation {c : Char} {k : Kind} (h : punctuation? c = some k) (cs : List Char) :
    read? (c :: cs) = some ⟨k, [c], [c]⟩ := by
  simp [read?, h]

theorem read?_quote {c : Char} (h : c = '"' ∨ c = '\'') (cs : List Char) :
    read? (c :: cs) = some ⟨.string, cs.takeWhile (· != c),
      c :: cs.takeWhile (· != c) ++ (cs.dropWhile (· != c)).take 1⟩ := by
  rcases h with rfl | rfl <;> rfl

theorem read?_digit {c : Char} (h : c.isDigit = true) (cs : List Char) :
    read? (c :: cs) =
      some ⟨.number, (c :: cs).takeWhile Char.isDigit, (c :: cs).takeWhile Char.isDigit⟩ := by
  have ha := Text.isAlphanum_of_isDigit h
  rw [read?]
  simp only [punctuation?_of_isAlphanum ha, if_neg (not_quote_of_isAlphanum ha), if_pos h]

theorem read?_letter {c : Char} (h : c.isAlpha = true) (cs : List Char) :
    read? (c :: cs) =
      some ⟨if isKeyword ((c :: cs).takeWhile Char.isAlphanum) then .identifier else .symbol,
        (c :: cs).takeWhile Char.isAlphanum, (c :: cs).takeWhile Char.isAlphanum⟩ := by
  have ha := Text.isAlphanum_of_isAlpha h
  rw [read?]
  simp only [punctuation?_of_isAlphanum ha, if_neg (not_quote_of_isAlphanum ha),
    isDigit_eq_false_of_isAlpha h, Bool.false_eq_true, if_false, if_pos h]

/-- The lexeme at the front of a text is found by its first character. -/
theorem read?_cases (c : Char) :
    (∃ k, punctuation? c = some k) ∨ (c = '"' ∨ c = '\'') ∨ c.isDigit = true ∨ c.isAlpha = true ∨
      ((c ≠ '"' ∧ c ≠ '\'') ∧ ∀ cs, read? (c :: cs) = none) := by
  cases hp : punctuation? c with
  | some k => exact .inl ⟨k, rfl⟩
  | none =>
    by_cases hq : c = '"' ∨ c = '\''
    · exact .inr (.inl hq)
    by_cases hd : c.isDigit = true
    · exact .inr (.inr (.inl hd))
    by_cases ha : c.isAlpha = true
    · exact .inr (.inr (.inr (.inl ha)))
    refine .inr (.inr (.inr (.inr ⟨not_or.1 hq, fun cs => ?_⟩)))
    have hq' : ¬ (c = '"' || c = '\'') = true := by simpa using hq
    simp only [read?, hp, if_neg hq', if_neg hd, if_neg ha]

theorem not_quote_of_punctuation {c : Char} {k : Kind} (h : punctuation? c = some k) : c ≠ '"' ∧ c ≠ '\'' := by
  constructor <;> (rintro rfl; simp [punctuation?] at h)

/-- A quoted string with its end, in front of a text. -/
theorem read?_quoted {c : Char} (h : c = '"' ∨ c = '\'') {v : List Char} (hv : c ∉ v) (cs : List Char) :
    read? (c :: (v ++ c :: cs)) = some ⟨.string, v, c :: v ++ [c]⟩ := by
  have hall : ∀ d ∈ v, (d != c) = true := fun d hd => by
    rw [bne_iff_ne]
    rintro rfl
    exact hv hd
  rw [read?_quote h, List.takeWhile_append_of_pos hall, List.dropWhile_append_of_pos hall]
  simp

/-- Where no lexeme begins, none does whatever follows. -/
theorem read?_eq_none {c : Char} {cs : List Char} (h : read? (c :: cs) = none) :
    (c ≠ '"' ∧ c ≠ '\'') ∧ ∀ ds, read? (c :: ds) = none := by
  obtain ⟨k, hk⟩ | hq | hd | ha | hn := read?_cases c
  · simp [read?_punctuation hk] at h
  · simp [read?_quote hq] at h
  · simp [read?_digit hd] at h
  · simp [read?_letter ha] at h
  · exact hn

/-- What a lexeme covers is the front of the text. -/
theorem span_prefix {a : List Char} {l : Lexeme} (h : read? a = some l) : l.span <+: a ∧ l.span ≠ [] := by
  cases a with
  | nil => simp [read?] at h
  | cons c cs =>
    obtain ⟨k, hk⟩ | hq | hd | ha | ⟨-, hn⟩ := read?_cases c
    · rw [read?_punctuation hk] at h
      cases h
      exact ⟨⟨cs, rfl⟩, by simp⟩
    · rw [read?_quote hq] at h
      cases h
      refine ⟨⟨(cs.dropWhile (· != c)).drop 1, ?_⟩, by simp⟩
      rw [List.append_assoc, List.take_append_drop, List.cons_append, List.takeWhile_append_dropWhile]
    · rw [read?_digit hd] at h
      cases h
      exact ⟨List.takeWhile_prefix _, by simp [hd]⟩
    · rw [read?_letter ha] at h
      cases h
      exact ⟨List.takeWhile_prefix _, by simp [Text.isAlphanum_of_isAlpha ha]⟩
    · simp [hn] at h

/-- A lexeme stays the same in front of more text, where the text may be cut. -/
theorem read?_append {a b : List Char} {l : Lexeme} (h : read? a = some l) (hq : openQuote none a = none)
    (hb : Apart a b) : read? (a ++ b) = some l ∧ openQuote none l.span = none := by
  cases a with
  | nil => simp [read?] at h
  | cons c cs =>
    rw [List.cons_append]
    obtain ⟨k, hk⟩ | hquote | hd | ha | ⟨-, hn⟩ := read?_cases c
    · rw [read?_punctuation hk] at h ⊢
      cases h
      exact ⟨rfl, openQuote_of_plain (by simpa using not_quote_of_punctuation hk)⟩
    · have hstep : quoteAfter none c = some c := by rcases hquote with rfl | rfl <;> rfl
      have hmem : c ∈ cs := by
        by_contra hc
        rw [openQuote_cons, hstep, openQuote_some_of_not_mem hc] at hq
        simp at hq
      obtain ⟨v, r, rfl, hv⟩ := List.eq_append_cons_of_mem hmem
      rw [read?_quoted hquote hv] at h
      cases h
      rw [List.append_assoc, List.cons_append, read?_quoted hquote hv]
      refine ⟨rfl, ?_⟩
      rw [openQuote_append, openQuote_cons none, hstep, openQuote_some_of_not_mem hv]
      simp [openQuote, quoteAfter]
    · rw [read?_digit hd] at h ⊢
      cases h
      rw [← List.cons_append,
        Text.takeWhile_append_of_head (hb.head_of_all (fun _ => Text.isAlphanum_of_isDigit) (by simp))]
      exact ⟨rfl, openQuote_of_alphanum fun d hd => Text.isAlphanum_of_isDigit (List.mem_takeWhile_imp hd)⟩
    · rw [read?_letter ha] at h ⊢
      cases h
      rw [← List.cons_append, Text.takeWhile_append_of_head (hb.head_of_all (fun _ => id) (by simp))]
      exact ⟨rfl, openQuote_of_alphanum fun d hd => List.mem_takeWhile_imp hd⟩
    · simp [hn] at h

end Lexeme

/-! ## All lexemes of a text -/

@[simp] theorem scan_nil (p : Location) : scan p [] = ([], p) := by rw [scan]

theorem scan_skip {c : Char} {cs : List Char} (h : Lexeme.read? (c :: cs) = none) (p : Location) :
    scan p (c :: cs) = scan (p.advance c) cs := by
  rw [scan, h]

theorem scan_lexeme {l : Lexeme} {cs : List Char} (h : Lexeme.read? (l.span ++ cs) = some l) (p : Location) :
    scan p (l.span ++ cs) =
      (⟨l.kind, String.ofList l.value, p⟩ :: (scan (p.after l.span) cs).1, (scan (p.after l.span) cs).2) := by
  obtain ⟨c, s, hs⟩ := List.exists_cons_of_ne_nil (Lexeme.span_prefix h).2
  rw [hs, List.cons_append] at h
  rw [hs, List.cons_append, scan, h]
  simp [hs]

/-- What holds of the empty text, and of a text if it holds behind its first lexeme, or behind its first
character where no lexeme begins, holds of every text. -/
theorem scan_induction {motive : List Char → Prop} (nil : motive [])
    (skip : ∀ c cs, Lexeme.read? (c :: cs) = none → motive cs → motive (c :: cs))
    (lexeme : ∀ l cs, Lexeme.read? (l.span ++ cs) = some l → motive cs → motive (l.span ++ cs))
    (a : List Char) : motive a := by
  induction hn : a.length using Nat.strongRecOn generalizing a with
  | ind n ih =>
    subst hn
    cases a with
    | nil => exact nil
    | cons c cs =>
      cases hl : Lexeme.read? (c :: cs) with
      | none => exact skip c cs hl (ih cs.length (by simp) cs rfl)
      | some l =>
        obtain ⟨⟨rest, hrest⟩, hne⟩ := Lexeme.span_prefix hl
        have hlt : rest.length < (c :: cs).length := by
          rw [← hrest, List.length_append]
          have := List.length_pos_iff.2 hne
          omega
        rw [← hrest] at hl ⊢
        exact lexeme l rest hl (ih rest.length hlt rest rfl)

/-- **Scanning is compositional**: where a text may be cut, the tokens behind the cut are those of the rest. -/
theorem scan_append {a b : List Char} (hq : openQuote none a = none) (hb : Apart a b) (p : Location) :
    scan p (a ++ b) = ((scan p a).1 ++ (scan (p.after a) b).1, (scan (p.after a) b).2) := by
  induction a using scan_induction generalizing p with
  | nil => simp [Location.after_nil]
  | skip c cs h ih =>
    obtain ⟨⟨h1, h2⟩, hn⟩ := Lexeme.read?_eq_none h
    have hc : quoteAfter none c = none := by simp [quoteAfter, h1, h2]
    rw [openQuote_cons, hc] at hq
    rw [List.cons_append, scan_skip (hn _), scan_skip (hn _), Location.after_cons]
    exact ih hq (Apart.suffix (a := [c]) hb) _
  | lexeme l cs h ih =>
    obtain ⟨h', hspan⟩ := Lexeme.read?_append h hq hb
    rw [openQuote_append, hspan] at hq
    rw [List.append_assoc] at h' ⊢
    rw [scan_lexeme h', scan_lexeme h, ih hq hb.suffix, Location.after_append]
    rfl

/-- The tokens of a text end where the text does. -/
theorem scan_snd (p : Location) (a : List Char) : (scan p a).2 = p.after a := by
  induction a using scan_induction generalizing p with
  | nil => simp [Location.after_nil]
  | skip c cs h ih => rw [scan_skip h, ih, Location.after_cons]
  | lexeme l cs h ih => rw [scan_lexeme h, ih, Location.after_append]

/-- Every token is made from a lexeme of the text, and is placed where that begins. -/
theorem exists_lexeme_of_mem_scan {a : List Char} {p : Location} {t : Token} (h : t ∈ (scan p a).1) :
    ∃ (l : Lexeme) (before behind : List Char), a = before ++ (l.span ++ behind) ∧
      Lexeme.read? (l.span ++ behind) = some l ∧ t.kind = l.kind ∧ t.value = String.ofList l.value ∧
      t.location = p.after before := by
  induction a using scan_induction generalizing p with
  | nil => simp at h
  | skip c cs hn ih =>
    rw [scan_skip hn] at h
    obtain ⟨l, before, behind, rfl, hl⟩ := ih h
    exact ⟨l, c :: before, behind, rfl, hl⟩
  | lexeme l cs hl ih =>
    rw [scan_lexeme hl, List.mem_cons] at h
    rcases h with rfl | h
    · exact ⟨l, [], cs, rfl, hl, rfl, rfl, rfl⟩
    · obtain ⟨m, before, behind, rfl, hread, hkind, hvalue, hlocation⟩ := ih h
      refine ⟨m, l.span ++ before, behind, by simp, hread, hkind, hvalue, ?_⟩
      rw [hlocation, Location.after_append]

/-- There are no more tokens than characters. -/
theorem length_scan_le (p : Location) (a : List Char) : (scan p a).1.length ≤ a.length := by
  induction a using scan_induction generalizing p with
  | nil => simp
  | skip c cs hn ih =>
    rw [scan_skip hn]
    exact Nat.le_succ_of_le (ih _)
  | lexeme l cs hl ih =>
    have hspan := List.length_pos_iff.2 (Lexeme.span_prefix hl).2
    have hrest := ih (p.after l.span)
    rw [scan_lexeme hl, List.length_cons, List.length_append]
    omega

/-! ## Words, numbers and marks -/

/-- A letter and the letters and digits behind it. -/
def IsWord (cs : List Char) : Prop := (∃ c ds, cs = c :: ds ∧ c.isAlpha = true) ∧ ∀ c ∈ cs, c.isAlphanum = true

/-- What the value of a token is like. -/
def IsLexical (t : Token) : Prop :=
  match t.kind with
  | .identifier => IsWord t.value.toList ∧ isKeyword t.value.toList = true
  | .symbol => IsWord t.value.toList ∧ isKeyword t.value.toList = false
  | .number => Text.IsRun t.value.toList
  | _ => True

theorem isLexical_of_mem_scan {a : List Char} {p : Location} {t : Token} (h : t ∈ (scan p a).1) : t.IsLexical := by
  obtain ⟨l, before, behind, -, hl, hk, hv, -⟩ := exists_lexeme_of_mem_scan h
  obtain ⟨c, s, hs⟩ := List.exists_cons_of_ne_nil (Lexeme.span_prefix hl).2
  rw [hs, List.cons_append] at hl
  unfold IsLexical
  rw [hk, hv, String.toList_ofList]
  obtain ⟨k, hp⟩ | hq | hd | ha | ⟨-, hn⟩ := Lexeme.read?_cases c
  · rw [Lexeme.read?_punctuation hp] at hl
    cases hl
    unfold punctuation? at hp
    split at hp <;> cases hp <;> trivial
  · rw [Lexeme.read?_quote hq] at hl
    cases hl
    trivial
  · rw [Lexeme.read?_digit hd] at hl
    cases hl
    exact ⟨by simp [hd], fun d hd => List.mem_takeWhile_imp hd⟩
  · rw [Lexeme.read?_letter ha] at hl
    cases hl
    have hw : IsWord ((c :: (s ++ behind)).takeWhile Char.isAlphanum) := by
      refine ⟨⟨c, (s ++ behind).takeWhile Char.isAlphanum, ?_, ha⟩, fun d hd => List.mem_takeWhile_imp hd⟩
      rw [List.takeWhile_cons_of_pos (Text.isAlphanum_of_isAlpha ha)]
    cases hkw : isKeyword ((c :: (s ++ behind)).takeWhile Char.isAlphanum) <;> exact ⟨hw, rfl⟩
  · simp [hn] at hl

theorem scan_whole {a : List Char} {k : Kind} {v : List Char} (h : Lexeme.read? a = some ⟨k, v, a⟩) (p : Location) :
    (scan p a).1 = [⟨k, String.ofList v, p⟩] := by
  have hl : Lexeme.read? (Lexeme.span ⟨k, v, a⟩ ++ []) = some ⟨k, v, a⟩ := by rwa [List.append_nil]
  have hs := scan_lexeme hl p
  rw [List.append_nil, scan_nil] at hs
  rw [hs]

theorem scan_word {w : List Char} (h : IsWord w) (p : Location) :
    (scan p w).1 = [⟨if isKeyword w then .identifier else .symbol, String.ofList w, p⟩] := by
  obtain ⟨⟨c, ds, rfl, hc⟩, hall⟩ := h
  have hl := Lexeme.read?_letter hc ds
  rw [List.takeWhile_eq_self_iff.2 hall] at hl
  exact scan_whole hl p

theorem scan_number {ds : List Char} (h : Text.IsRun ds) (p : Location) :
    (scan p ds).1 = [⟨.number, String.ofList ds, p⟩] := by
  obtain ⟨hne, hall⟩ := h
  obtain ⟨c, cs, rfl⟩ := List.exists_cons_of_ne_nil hne
  have hl := Lexeme.read?_digit (hall c List.mem_cons_self) cs
  rw [List.takeWhile_eq_self_iff.2 hall] at hl
  exact scan_whole hl p

theorem scan_mark {c : Char} {k : Kind} (h : punctuation? c = some k) (p : Location) (cs : List Char) :
    (scan p (c :: cs)).1 = ⟨k, String.ofList [c], p⟩ :: (scan (p.advance c) cs).1 := by
  have hl : Lexeme.read? (Lexeme.span ⟨k, [c], [c]⟩ ++ cs) = some ⟨k, [c], [c]⟩ := Lexeme.read?_punctuation h cs
  exact congrArg Prod.fst (scan_lexeme hl p)

theorem scan_space (p : Location) (cs : List Char) : scan p (' ' :: cs) = scan (p.advance ' ') cs :=
  scan_skip rfl p

end Rosette.Token
