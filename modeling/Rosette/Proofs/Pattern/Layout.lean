import Mathlib.Data.List.Forall2
import Rosette.Proofs.Pattern.Failure
import Rosette.Proofs.Pattern.Relocation
import Rosette.Proofs.Token.Cut
import Rosette.Proofs.Token.Munch

/-!
# Layout does not matter

White space and characters of no token may be put anywhere between the tokens of a text (`spread`). Its tokens keep their
kinds and values (`scan_spread`), since what is put behind a lexeme does not go on with it. Places change, and with
`alike_topLevel` only places change in what is read or reported.

Main result: `parse_spread`.
-/

namespace Rosette

namespace Token

variable {gaps : Nat → List Char} {before rest cs : List Char} {c : Char} {l : Lexeme} {i n : Nat} {p : Location}

/-! ## Lexemes in front of loose characters -/

/-- A lexeme that has its end stays one where loose characters come to stand behind it. -/
theorem Lexeme.Munches.loosened (h : l.Munches cs) (hquote : openQuote none (l.span ++ cs) = none)
    (hrest : ∀ d ∈ rest.head?, IsLoose d ∨ d ∈ cs.head?) : l.Munches rest := by
  cases h with
  | mark h => exact .mark h
  | closed hq hv => exact .closed hq hv
  | @unclosed q v hq hv =>
    have hopen : quoteAfter none q = some q := by rcases hq with rfl | rfl <;> rfl
    simp only [List.append_nil] at hquote
    rw [openQuote_cons, hopen, openQuote_some_of_not_mem hv] at hquote
    cases hquote
  | number h hstop =>
    refine .number h fun d hd => ?_
    rcases hrest d hd with hloose | hcs
    · by_contra hdigit
      have := Text.isAlphanum_of_isDigit (Bool.not_eq_false _ ▸ hdigit)
      rw [hloose.isAlphanum_eq_false] at this
      cases this
    · exact hstop d hcs
  | word h hstop => exact .word h fun d hd => (hrest d hd).elim IsLoose.isAlphanum_eq_false (hstop d)

/-! ## Text put between tokens -/

/-- A text with more text put in: `gaps i` stands in front of the character `i`, and the last of them behind the
text. Characters are counted from `n`. -/
def spread (gaps : Nat → List Char) (n : Nat) : List Char → List Char
  | [] => gaps n
  | c :: cs => gaps n ++ c :: spread gaps (n + 1) cs

/-- The place in front of the character `i` of a text lies inside a token. -/
def Piece.Encloses (t : Piece) (source : List Char) (i : Nat) : Prop := t.position < i ∧ i < t.stop source

theorem head?_spread (hloose : ∀ i, ∀ c ∈ gaps i, IsLoose c) (n : Nat) (cs : List Char) :
    ∀ d ∈ (spread gaps n cs).head?, IsLoose d ∨ d ∈ cs.head? := by
  have hgap : ∀ rest : List Char, ∀ d ∈ (gaps n ++ rest).head?, IsLoose d ∨ d ∈ rest.head? := by
    intro rest d hd
    cases hg : gaps n with
    | nil =>
      rw [hg] at hd
      exact .inr hd
    | cons e es =>
      rw [hg] at hd
      cases hd
      exact .inl (hloose n d (by rw [hg]; exact List.mem_cons_self))
  cases cs with
  | nil =>
    intro d hd
    exact hgap [] d (by rwa [List.append_nil])
  | cons c cs => exact hgap (c :: spread gaps (n + 1) cs)

/-- A part of a text stays in one piece where nothing is put into it. -/
theorem spread_append {a : List Char} (hne : a ≠ []) (h : ∀ i, n < i → i < n + a.length → gaps i = [])
    (cs : List Char) :
    spread gaps n (a ++ cs) = gaps n ++ (a ++ spread gaps (n + a.length) cs) := by
  induction a generalizing n with
  | nil => exact absurd rfl hne
  | cons c a ih =>
    rw [List.cons_append, spread]
    cases a with
    | nil => rfl
    | cons d a =>
      have hnone : gaps (n + 1) = [] := h (n + 1) (by omega) (by simp only [List.length_cons]; omega)
      rw [ih (by simp) fun i hi hlt => h i (by omega) (by simp only [List.length_cons] at *; omega), hnone,
        List.nil_append, List.cons_append (a := c), List.length_cons (a := c), Nat.add_assoc, Nat.add_comm 1]

/-- **Text between tokens changes no token** but for its place. -/
theorem scan_spread (before : List Char) (hloose : ∀ i, ∀ c ∈ gaps i, IsLoose c) (hquote : openQuote none rest = none)
    (hgaps : ∀ t ∈ (scan (Location.start.after before) rest).1, ∀ i,
      (piece t).Encloses (before ++ rest) i → gaps i = [])
    (p : Location) :
    List.Forall₂ (Token.Alike fun _ _ => True) (scan (Location.start.after before) rest).1
      (scan p (spread gaps before.length rest)).1 := by
  induction rest using scan_induction generalizing before p with
  | nil =>
    have hscan := scan_loose (hloose before.length) p []
    rw [List.append_nil] at hscan
    rw [spread, hscan, scan_nil, scan_nil]
    exact .nil
  | skip c cs hnone ih =>
    obtain ⟨⟨hdouble, hsingle⟩, hskip⟩ := Lexeme.read?_eq_none hnone
    have hstep : quoteAfter none c = none := by simp [quoteAfter, hdouble, hsingle]
    have hbefore : before ++ c :: cs = before ++ [c] ++ cs := by simp
    have hplace : (Location.start.after before).advance c = Location.start.after (before ++ [c]) := by
      rw [Location.after_append]
      rfl
    rw [openQuote_cons, hstep] at hquote
    rw [scan_skip hnone, hplace, hbefore] at hgaps
    rw [scan_skip hnone, hplace, spread, scan_loose (hloose _), scan_skip (hskip _)]
    have hrest := ih _ hquote hgaps ((p.after (gaps before.length)).advance c)
    rwa [List.length_append, List.length_singleton] at hrest
  | lexeme l cs hread ih =>
    have hl := Lexeme.munches_of_read? hread
    have hspan : openQuote none l.span = none := (Lexeme.read?_append (b := []) hread hquote (.of_head (by simp))).2
    have hpiece : piece ⟨l.kind, String.ofList l.value, Location.start.after before⟩ = l.pieceBehind before := by
      rw [piece, Location.after_start, Lexeme.pieceBehind]
    have hstop : (l.pieceBehind before).stop _ = _ := stop_pieceBehind hl
    rw [scan_lexeme hread] at hgaps
    obtain ⟨hfirst, hothers⟩ := List.forall_mem_cons.1 hgaps
    rw [hpiece] at hfirst
    -- nothing is put into the lexeme
    have hwhole := spread_append (Lexeme.span_prefix hread).2 (fun i hi hlt => hfirst i
      ⟨by simpa only [Lexeme.pieceBehind, Int.ofNat_lt] using hi, by rw [hstop]; omega⟩) cs
    have hback := (hl.loosened hquote (head?_spread hloose (before.length + l.span.length) cs)).read?_eq
    rw [openQuote_append, hspan] at hquote
    rw [scan_lexeme hread, hwhole, scan_loose (hloose _), scan_lexeme hback, ← Location.after_append]
    refine .cons ⟨rfl, rfl, trivial⟩ ?_
    rw [← Location.after_append, ← List.append_assoc] at hothers
    have hrest := ih _ hquote hothers (((p.after (gaps before.length)).after l.span))
    rwa [List.length_append] at hrest

end Token

/-! ## Whole texts -/

namespace Pattern

open Token

variable {gaps : Nat → List Char} {source text : String} {l l' : Location}

/-- Two places that are those of the tokens with the same number in two texts. The end counts as a token. -/
def SameToken (source text : String) (l l' : Location) : Prop :=
  ∃ (i : Nat) (t t' : Token), (tokenize source)[i]? = some t ∧ (tokenize text)[i]? = some t' ∧
    t.location = l ∧ t'.location = l'

/-- Tokens that are alike stand in the places of their numbers. -/
theorem alike_sameToken
    (h : List.Forall₂ (Token.Alike fun _ _ => True) (scan .start source.toList).1 (scan .start text.toList).1) :
    List.Forall₂ (Token.Alike (SameToken source text)) (scan .start source.toList).1 (scan .start text.toList).1 ∧
      SameToken source text (Location.start.after source.toList) (Location.start.after text.toList) := by
  obtain ⟨hlength, hget⟩ := List.forall₂_iff_get.1 h
  constructor
  · refine List.forall₂_iff_get.2 ⟨hlength, fun i hi hi' => ?_⟩
    obtain ⟨kind, value, -⟩ := hget i hi hi'
    refine ⟨kind, value, i, _, _, ?_, ?_, rfl, rfl⟩
    · rw [tokenize_eq, List.getElem?_append_left hi, List.getElem?_eq_getElem hi, List.get_eq_getElem]
    · rw [tokenize_eq, List.getElem?_append_left hi', List.getElem?_eq_getElem hi', List.get_eq_getElem]
  · refine ⟨(scan .start source.toList).1.length, endAt (Location.start.after source.toList),
      endAt (Location.start.after text.toList), ?_, ?_, rfl, rfl⟩
    · rw [tokenize_eq, List.getElem?_concat_length]
    · rw [tokenize_eq, hlength, List.getElem?_concat_length]

/-- **Layout does not matter.** A text without an unterminated string and the text with loose characters put
before, between and behind its tokens are read as the same pattern, or refused with the same message and hint at
the tokens of the same number. -/
theorem parse_spread (hquote : openQuote none source.toList = none) (hloose : ∀ i, ∀ c ∈ gaps i, IsLoose c)
    (hgaps : ∀ t ∈ tokenize source, ∀ i, (piece t).Encloses source.toList i → gaps i = []) (s : Settings) :
    let text := String.ofList (spread gaps 0 source.toList)
    (∀ p, parse s text = .ok p ↔ parse s source = .ok p) ∧
      (∀ f, parse s text = .error (.numeral f) ↔ parse s source = .error (.numeral f)) ∧
      ∀ e, parse s source = .error (.problem e) → ∃ e', parse s text = .error (.problem e') ∧
        e'.diagnostic.message = e.diagnostic.message ∧ e'.diagnostic.suggestion = e.diagnostic.suggestion ∧
        SameToken source text e.location e'.location := by
  intro text
  have htext : text.toList = spread gaps 0 source.toList := String.toList_ofList
  have hscan := scan_spread [] hloose hquote
    (fun t ht => hgaps t (tokenize_eq source ▸ List.mem_append_left _ ht)) .start
  rw [Location.after_nil, List.length_nil, ← htext] at hscan
  obtain ⟨htokens, hend⟩ := alike_sameToken hscan
  have hbounds : Bounds.Alike (SameToken source text) ⟨s.maxDepth, (scan .start source.toList).2⟩
      ⟨s.maxDepth, (scan .start text.toList).2⟩ := ⟨rfl, by rw [scan_snd, scan_snd]; exact hend⟩
  have hruns := alike_topLevel hbounds htokens s.trailing 0
  simp only [parse_eq_ok, parse_eq_error]
  generalize readTopLevel ⟨s.maxDepth, (scan .start source.toList).2⟩ s.trailing 0 (scan .start source.toList).1 = r,
    readTopLevel ⟨s.maxDepth, (scan .start text.toList).2⟩ s.trailing 0 (scan .start text.toList).1 = r' at hruns
  cases hruns with
  | @ok a c same =>
    obtain ⟨p, rest⟩ := a
    obtain ⟨p', rest'⟩ := c
    obtain ⟨rfl, -⟩ := same
    refine ⟨fun q => ?_, by simp, by simp⟩
    simp
  | @error h h' halt =>
    obtain ⟨fault, depth, rest⟩ := h
    obtain ⟨fault', depth', rest'⟩ := h'
    obtain ⟨hfault, -, -⟩ := halt
    refine ⟨by simp, fun f => ?_, ?_⟩
    · cases hfault <;> simp
    · rintro e ⟨_, ⟨⟩, rfl⟩
      cases hfault with
      | @problem _ e' cause place => exact ⟨e', ⟨_, rfl, rfl⟩, cause.message, cause.suggestion, place⟩

/-- The call `mir(d` is not closed, and no more so over two lines and with an `é` in it. -/
theorem parse_spread_call :
    ∃ e', parse ⟨1, true⟩ "\nmir é(d " = .error (.problem e') ∧
      e'.diagnostic.message = "Expected comma or closing parenthesis" ∧ e'.diagnostic.suggestion = none ∧
      SameToken "mir(d" "\nmir é(d " ⟨1, 6, 5⟩ e'.location := by
  have htokens : Token.scan .start "mir(d".toList =
      ([⟨.identifier, "mir", ⟨1, 1, 0⟩⟩, ⟨.lparen, "(", ⟨1, 4, 3⟩⟩, ⟨.symbol, "d", ⟨1, 5, 4⟩⟩], ⟨1, 6, 5⟩) := by
    decide +kernel
  have hword : ofWord ['d'] = .ok (.symbol "d" false .absent) := by with_unfolding_all rfl
  have hrun : parse ⟨1, true⟩ "mir(d" = .error (.problem ⟨.missingComma, ⟨1, 6, 5⟩⟩) := by
    simp only [parse, Reader.run, Reader.ofSource, htokens]
    simp [readTopLevel, readPattern, readCommand, readArguments, readArgument, readWord, hword, isSequence,
      Bounds.full, Bounds.halt, Bounds.current, endAt]
  let gaps : Nat → List Char := fun i =>
    if i = 0 then ['\n'] else if i = 3 then [' ', 'é'] else if i = 5 then [' '] else []
  have hloose : ∀ i, ∀ c ∈ gaps i, IsLoose c := by
    intro i c hc
    have hmem : c = '\n' ∨ c = ' ' ∨ c = 'é' := by
      simp only [gaps] at hc
      split_ifs at hc <;> simp at hc <;> tauto
    rcases hmem with rfl | rfl | rfl
    · exact .inl (by decide)
    · exact .inl (by decide)
    · exact .inr (by simp only [IsQuote]; decide)
  have hgaps : ∀ t ∈ tokenize "mir(d", ∀ i, (piece t).Encloses "mir(d".toList i → gaps i = [] := by
    -- only the word has room inside
    intro t ht i hi
    have hword : i = 1 ∨ i = 2 := by
      rw [tokenize, Scanner.run, htokens] at ht
      simp only [List.cons_append, List.nil_append, List.mem_cons, List.not_mem_nil, or_false] at ht
      have hlength : "mir".length = 3 ∧ "(".length = 1 ∧ "d".length = 1 := by decide
      rcases ht with rfl | rfl | rfl | rfl <;>
        simp [Piece.Encloses, piece, Piece.stop, endAt, hlength] at hi <;> omega
    rcases hword with rfl | rfl <;> rfl
  exact (parse_spread (by decide) hloose hgaps ⟨1, true⟩).2.2 _ hrun

end Pattern

end Rosette
