import Rosette.Proofs.Text.Trim
import Rosette.Proofs.Token.Composition

/-!
# Lexemes

What the lexeme in front of a text is, without the order in which the scanner tries its classes: `Munches` says of each
class what belongs to it and where it stops, and the scanner takes what it says (`munches_of_read?`,
`Munches.read?_eq`). Where it takes nothing stands a character that begins no lexeme.
-/

namespace Rosette.Token

def IsQuote (c : Char) : Prop := c = '"' ∨ c = '\''

/-- A character that may stand outside all tokens. -/
def IsLoose (c : Char) : Prop :=
  Text.isBlank c = true ∨ ¬ (IsQuote c ∨ (punctuation? c).isSome ∨ c.isAlpha = true ∨ c.isDigit = true)

/-- What the lexeme in front of `behind` is like: it is of one of four classes and goes on as far as its class
does. -/
inductive Lexeme.Munches : Lexeme → List Char → Prop where
  | mark {c : Char} {k : Kind} {behind : List Char} (h : punctuation? c = some k) : Munches ⟨k, [c], [c]⟩ behind
  | closed {q : Char} {v behind : List Char} (hq : IsQuote q) (hv : q ∉ v) :
      Munches ⟨.string, v, q :: v ++ [q]⟩ behind
  | unclosed {q : Char} {v : List Char} (hq : IsQuote q) (hv : q ∉ v) : Munches ⟨.string, v, q :: v⟩ []
  | number {ds behind : List Char} (h : Text.IsRun ds) (hstop : ∀ d ∈ behind.head?, d.isDigit = false) :
      Munches ⟨.number, ds, ds⟩ behind
  | word {w behind : List Char} (h : IsWord w) (hstop : ∀ d ∈ behind.head?, d.isAlphanum = false) :
      Munches ⟨if isKeyword w then .identifier else .symbol, w, w⟩ behind

theorem kind_of_punctuation? {c : Char} {k : Kind} (h : punctuation? c = some k) : k ≠ .string ∧ k ≠ .eof := by
  unfold punctuation? at h
  split at h <;> cases h <;> decide

namespace Lexeme

theorem munches_of_read? {l : Lexeme} {behind : List Char} (h : read? (l.span ++ behind) = some l) :
    l.Munches behind := by
  obtain ⟨c, s, hs⟩ := List.exists_cons_of_ne_nil (Lexeme.span_prefix h).2
  have hcs : l.span ++ behind = c :: (s ++ behind) := by rw [hs, List.cons_append]
  rw [hcs] at h
  generalize hr : s ++ behind = r at h
  rw [hr] at hcs
  obtain ⟨k, hk⟩ | hq | hd | ha | ⟨-, hn⟩ := read?_cases c
  · rw [read?_punctuation hk] at h
    cases h
    exact .mark hk
  · rw [read?_quote hq] at h
    cases h
    have hv : c ∉ r.takeWhile (· != c) := fun hc => by simpa using List.mem_takeWhile_imp hc
    -- behind the value stands the quote, or nothing at all
    cases hrest : r.dropWhile (· != c) with
    | nil =>
      have hself : r.takeWhile (· != c) = r := by
        have := List.takeWhile_append_dropWhile (p := (· != c)) (l := r)
        rwa [hrest, List.append_nil] at this
      simp only [hself, hrest, List.take_nil, List.append_nil, List.cons_append, List.cons.injEq, true_and,
        List.append_right_eq_self] at hcs hv ⊢
      rw [hcs]
      exact .unclosed hq hv
    | cons d rest =>
      have hd : d = c := by
        have hstop : (d != c) = false := by
          refine Text.head?_dropWhile_eq_false d (?_ : d ∈ (r.dropWhile (· != c)).head?)
          rw [hrest]
          rfl
        simpa using hstop
      subst hd
      exact .closed hq hv
  · rw [read?_digit hd] at h
    cases h
    have hbehind : behind = (c :: r).dropWhile Char.isDigit :=
      List.append_cancel_left (hcs.trans List.takeWhile_append_dropWhile.symm)
    rw [hbehind]
    exact .number ⟨by simp [hd], fun d hd => List.mem_takeWhile_imp hd⟩ Text.head?_dropWhile_eq_false
  · rw [read?_letter ha] at h
    cases h
    have hbehind : behind = (c :: r).dropWhile Char.isAlphanum :=
      List.append_cancel_left (hcs.trans List.takeWhile_append_dropWhile.symm)
    rw [hbehind]
    refine .word ⟨⟨c, r.takeWhile Char.isAlphanum, ?_, ha⟩, fun d hd => List.mem_takeWhile_imp hd⟩
      Text.head?_dropWhile_eq_false
    rw [List.takeWhile_cons_of_pos (Text.isAlphanum_of_isAlpha ha)]
  · simp [hn] at h

theorem isLoose_of_read? {c : Char} {cs : List Char} (h : read? (c :: cs) = none) : IsLoose c := by
  refine .inr ?_
  rintro (hq | hp | ha | hd)
  · simp [read?_quote hq] at h
  · obtain ⟨k, hk⟩ := Option.isSome_iff_exists.1 hp
    simp [read?_punctuation hk] at h
  · simp [read?_letter ha] at h
  · simp [read?_digit hd] at h

theorem Munches.read?_eq {l : Lexeme} {behind : List Char} (h : l.Munches behind) :
    read? (l.span ++ behind) = some l := by
  cases h with
  | mark h => exact read?_punctuation h behind
  | closed hq hv =>
    have := read?_quoted hq hv behind
    simpa using this
  | @unclosed q v hq hv =>
    have hall : ∀ d ∈ v, (d != q) = true := fun d hd => by
      rw [bne_iff_ne]
      rintro rfl
      exact hv hd
    simp only [List.append_nil]
    rw [read?_quote hq, List.takeWhile_eq_self_iff.2 hall, List.dropWhile_eq_nil_iff.2 hall]
    simp
  | @number ds _ h hstop =>
    obtain ⟨c, cs, rfl⟩ := List.exists_cons_of_ne_nil h.ne_nil
    simp only [List.cons_append]
    rw [read?_digit (h.digits c List.mem_cons_self), ← List.cons_append, (Text.run_append h.digits hstop).1]
  | @word w _ h hstop =>
    obtain ⟨⟨c, cs, rfl, hc⟩, hall⟩ := h
    simp only [List.cons_append]
    rw [read?_letter hc, ← List.cons_append, (Text.run_append hall hstop).1]

/-- The first character of a lexeme is one that begins lexemes. -/
theorem Munches.not_isLoose {l : Lexeme} {behind : List Char} (h : l.Munches behind) :
    ∃ c s, l.span = c :: s ∧ ¬ IsLoose c := by
  cases h with
  | @mark c k _ h =>
    refine ⟨c, [], rfl, ?_⟩
    have hblank : Text.isBlank c = false := by
      unfold punctuation? at h
      split at h <;> first | decide | cases h
    simp [IsLoose, hblank, h]
  | @closed q v _ hq _ =>
    refine ⟨q, v ++ [q], rfl, ?_⟩
    rcases hq with rfl | rfl <;> simp [IsLoose, IsQuote] <;> decide
  | @unclosed q v hq _ =>
    refine ⟨q, v, rfl, ?_⟩
    rcases hq with rfl | rfl <;> simp [IsLoose, IsQuote] <;> decide
  | @number ds _ h _ =>
    obtain ⟨c, cs, rfl⟩ := List.exists_cons_of_ne_nil h.ne_nil
    have hc := h.digits c List.mem_cons_self
    exact ⟨c, cs, rfl, by simp [IsLoose, hc, Text.isBlank_of_isAlphanum (Text.isAlphanum_of_isDigit hc)]⟩
  | @word w _ h _ =>
    obtain ⟨⟨c, cs, rfl, hc⟩, -⟩ := h
    exact ⟨c, cs, rfl, by simp [IsLoose, hc, Text.isBlank_of_isAlphanum (Text.isAlphanum_of_isAlpha hc)]⟩

theorem Munches.kind_ne_eof {l : Lexeme} {behind : List Char} (h : l.Munches behind) : l.kind ≠ .eof := by
  cases h with
  | mark h => exact (kind_of_punctuation? h).2
  | closed => nofun
  | unclosed => nofun
  | number => nofun
  | word =>
    dsimp only
    split <;> nofun

end Lexeme

/-- Scanning finds no end of the input. -/
theorem kind_ne_eof_of_mem_scan {cs : List Char} {p : Location} {t : Token} (h : t ∈ (scan p cs).1) : t.kind ≠ .eof := by
  obtain ⟨l, before, behind, -, hread, hkind, -, -⟩ := exists_lexeme_of_mem_scan h
  rw [hkind]
  exact (Lexeme.munches_of_read? hread).kind_ne_eof

/-! ## Loose characters -/

theorem IsLoose.isAlphanum_eq_false {c : Char} (h : IsLoose c) : c.isAlphanum = false := by
  by_contra hc
  rw [Bool.not_eq_false] at hc
  rcases h with hblank | hnot
  · rw [Text.isBlank_of_isAlphanum hc] at hblank
    cases hblank
  · exact hnot (.inr (.inr (Text.isAlphanum_iff.1 hc)))

theorem read?_of_isLoose {c : Char} (h : IsLoose c) (cs : List Char) : Lexeme.read? (c :: cs) = none := by
  cases hread : Lexeme.read? (c :: cs) with
  | none => rfl
  | some l =>
    obtain ⟨⟨behind, hbehind⟩, -⟩ := Lexeme.span_prefix hread
    rw [← hbehind] at hread
    obtain ⟨d, s, hspan, hnot⟩ := (Lexeme.munches_of_read? hread).not_isLoose
    rw [hspan] at hbehind
    cases hbehind
    exact absurd h hnot

/-- Loose characters leave no token. -/
theorem scan_loose {cs : List Char} (h : ∀ c ∈ cs, IsLoose c) (p : Location) (rest : List Char) :
    scan p (cs ++ rest) = scan (p.after cs) rest := by
  induction cs generalizing p with
  | nil => rfl
  | cons c cs ih =>
    rw [List.cons_append, scan_skip (read?_of_isLoose (h c List.mem_cons_self) _),
      ih (fun d hd => h d (List.mem_cons_of_mem _ hd)), Location.after_cons]

end Rosette.Token
