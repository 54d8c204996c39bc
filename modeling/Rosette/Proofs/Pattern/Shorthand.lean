import Rosette.Pattern.Shorthand
import Rosette.Proofs.Pattern.Recognition
import Rosette.Proofs.Pattern.Unrolling
import Rosette.Proofs.Text.LetterCase
import Rosette.Proofs.Text.Trim
import Rosette.Proofs.Token.Lexeme
import Rosette.Proofs.Traversal

/-!
# The shorthand and its sequence

Words of stroke letters stand for the same row in two ways: read as shorthand, letter by letter, and read as a
pattern that is unrolled. The two readers of a word go through it in step and fail together (`ofShorthand_cases`), so
they agree on every text that has a stroke letter (`ofShorthand_expand_ofWord`). Several words with white space between
them agree with the members of a sequence (`compileText_words`), because neither reader sees the white space.
-/

namespace Rosette

theorem Stroke.isAlpha_of_ofChar? {c : Char} {s : Stroke} (h : ofChar? c = some s) : c.isAlpha = true := by
  have all : ∀ letter ∈ alphabet, letter.toList.all Char.isAlpha = true := by decide
  have hlower : c.toLower.isAlpha = true := by
    have hletter := all _ (mem_alphabet_of_ofChar? h).1
    simpa using hletter
  unfold Char.toLower at hlower
  split at hlower
  · rename_i hupper
    have halpha : c.isAlpha = (c.isUpper || c.isLower) := rfl
    have hclass : c.isUpper = true := decide_eq_true hupper
    rw [halpha, hclass, Bool.true_or]
  · exact hlower

/-- A character is a stroke letter if its small letter is in the alphabet, in whatever script. -/
theorem Stroke.isSome_ofChar? {c : Char} : (ofChar? c).isSome = true ↔ String.ofList (Text.lower [c]) ∈ alphabet := by
  rw [Text.lower_singleton]
  by_cases hc : c.toNat < 128
  · have hsingle : String.ofList [c.toLower] = String.singleton c.toLower := rfl
    rw [Text.lowerChar_of_ascii hc, hsingle, ofChar?]
    simp
  · have hletters : ∀ letter ∈ alphabet, ∀ d ∈ letter.toList, d.toNat < 128 ∧ d ≠ 'i' ∧ d ≠ 'k' := by
      simp [alphabet]
    constructor
    · intro h
      obtain ⟨s, hs⟩ := Option.isSome_iff_exists.1 h
      exact absurd (Text.ascii_of_isAlphanum (Text.isAlphanum_of_isAlpha (isAlpha_of_ofChar? hs))) hc
    · intro h
      obtain ⟨d, hd⟩ := List.exists_mem_of_ne_nil _ (Text.lowerChar_ne_nil c)
      obtain ⟨hascii, hi, hk⟩ := hletters _ h d (by rwa [String.toList_ofList])
      obtain hd | hd := Text.lowerChar_foreign hd (by omega) hascii
      · exact absurd hd hi
      · exact absurd hd hk

namespace Pattern

open Expansion

/-! ## A word read twice -/

section
variable {limit : Int} {depth : Nat} {w cs : List Char} {ps : List Pattern} {row : List Stroke}

/-- The digits behind a letter say how often its stroke stands in the row, and both readers take or refuse them. -/
theorem repeatCount_cases (ds : List Char) :
    (∃ f, countOfDigits ds = .error f ∧ Stroke.repeatCount ds = .error f) ∨
      ∃ count n, countOfDigits ds = .ok count ∧ Stroke.repeatCount ds = .ok n ∧
        ∀ s : Stroke, s.char ∈ Stroke.alphabet → symbolRow s.char s.rotated count = repeated n [s] := by
  have hsymbol : ∀ (count : Count) (s : Stroke), s.char ∈ Stroke.alphabet →
      symbolRow s.char s.rotated count = counted count [s] := by
    intro count s hs
    rw [symbolRow, if_neg (Stroke.ne_solidMark_of_mem hs), if_pos (List.contains_iff_mem.2 hs)]
  unfold countOfDigits Stroke.repeatCount
  split
  · exact .inr ⟨.absent, 1, rfl, rfl, hsymbol .absent⟩
  · cases Numeral.read ds with
    | error f => exact .inl ⟨f, rfl, rfl⟩
    | ok n => exact .inr ⟨.times n, n, rfl, rfl, hsymbol (.times n)⟩

/-- One letter with its digits comes off the front of a shorthand. -/
theorem ofShorthand_cons {c : Char} {s : Stroke} {n : Nat} (hc : Stroke.ofChar? c = some s)
    (hn : Stroke.repeatCount (cs.takeWhile Text.isDigit) = .ok n) :
    Stroke.ofShorthand (c :: cs) =
      match Repetition.copies? n [s] with
      | none => .error .overflow
      | some first => (Stroke.ofShorthand (cs.dropWhile Text.isDigit)).map (first ++ ·) := by
  rw [Stroke.ofShorthand, hc]
  generalize Stroke.repeatCount (cs.takeWhile Text.isDigit) = count at hn
  subst hn
  rfl

theorem ofShorthand_cons_eq_ok {c : Char} {s : Stroke} {n : Nat} (hc : Stroke.ofChar? c = some s)
    (hn : Stroke.repeatCount (cs.takeWhile Text.isDigit) = .ok n) :
    Stroke.ofShorthand (c :: cs) = .ok row ↔
      ∃ first rest, Repetition.copies? n [s] = some first ∧ Stroke.ofShorthand (cs.dropWhile Text.isDigit) = .ok rest ∧
        row = first ++ rest := by
  rw [ofShorthand_cons hc hn]
  cases Repetition.copies? n [s] with
  | none => simp
  | some first =>
    simp only [map_eq_ok, Option.some.injEq]
    constructor
    · rintro ⟨rest, hrest, rfl⟩
      exact ⟨first, rest, rfl, hrest, rfl⟩
    · rintro ⟨_, rest, rfl, hrest, rfl⟩
      exact ⟨rest, hrest, rfl⟩

/-- **Both readers go through a word in step.** Either the symbols of the word have rows, and these are the shorthand's;
or a count is too large, for both; or a count is no number. Where a count that is too large stands before one that is no
number, the shorthand stops at the former and the word at the latter. -/
theorem ofShorthand_cases (limit : Int) (depth : Nat) (cs : List Char) :
    (∃ ps rows, wordSymbols cs = .ok ps ∧ expandEach limit depth ps = .ok rows ∧
        Stroke.ofShorthand cs = .ok rows.flatten) ∨
      (∃ ps, wordSymbols cs = .ok ps ∧ expandEach limit depth ps = .error .overflow ∧
        Stroke.ofShorthand cs = .error .overflow) ∨
      ∃ f, wordSymbols cs = .error f ∧
        (Stroke.ofShorthand cs = .error (.numeral f) ∨ Stroke.ofShorthand cs = .error .overflow) := by
  fun_induction wordSymbols cs with
  | case1 => exact .inl ⟨[], [], rfl, by rw [expandEach], by rw [Stroke.ofShorthand]; rfl⟩
  | case2 c cs hc ih =>
    rw [Stroke.ofShorthand, hc]
    exact ih
  | case3 c cs s hc f hf =>
    obtain ⟨g, hg, hg'⟩ | ⟨count, n, hcount, -⟩ := repeatCount_cases (cs.takeWhile Text.isDigit)
    · obtain rfl : g = f := by simpa [hg] using hf
      refine .inr (.inr ⟨g, rfl, .inl ?_⟩)
      rw [Stroke.ofShorthand, hc]
      simp [hg']
    · simp [hf] at hcount
  | case4 c cs s hc count hcount ih =>
    obtain ⟨f, hf, -⟩ | ⟨count', n, hcount', hn, hrow⟩ := repeatCount_cases (cs.takeWhile Text.isDigit)
    · simp [hf] at hcount
    obtain rfl : count' = count := by simpa [hcount'] using hcount
    have hsymbol : expandAt limit depth (.symbol s.char s.rotated count') = repeated n [s] := by
      rw [expandAt, hrow s (Stroke.mem_alphabet_of_ofChar? hc).2]
    rw [ofShorthand_cons hc hn]
    unfold repeated at hsymbol
    cases hfirst : Repetition.copies? n [s] with
    | none =>
      -- the shorthand stops here, the word only where its symbols are unrolled
      rw [hfirst] at hsymbol
      cases hps : wordSymbols (cs.dropWhile Text.isDigit) with
      | error f => exact .inr (.inr ⟨f, rfl, .inr rfl⟩)
      | ok ps => exact .inr (.inl ⟨_, rfl, by rw [expandEach, hsymbol]; rfl, rfl⟩)
    | some first =>
      rw [hfirst] at hsymbol
      obtain ⟨ps, rows, hps, hrows, hrest⟩ | ⟨ps, hps, hrows, hrest⟩ | ⟨f, hf, hrest⟩ := ih
      · exact .inl ⟨_, first :: rows, by rw [hps]; rfl, by rw [expandEach, hsymbol, hrows]; rfl, by rw [hrest]; rfl⟩
      · exact .inr (.inl ⟨_, by rw [hps]; rfl, by rw [expandEach, hsymbol, hrows]; rfl, by rw [hrest]; rfl⟩)
      · refine .inr (.inr ⟨f, by rw [hf]; rfl, ?_⟩)
        exact hrest.imp (fun h => by rw [h]; rfl) (fun h => by rw [h]; rfl)

/-- The shorthand has a row exactly if the symbols of the word have one, and then it is the same. -/
theorem ofShorthand_eq_ok_iff (limit : Int) (depth : Nat) :
    Stroke.ofShorthand cs = .ok row ↔
      ∃ ps rows, wordSymbols cs = .ok ps ∧ expandEach limit depth ps = .ok rows ∧ row = rows.flatten := by
  obtain ⟨ps, rows, hps, hrows, hread⟩ | ⟨ps, hps, hrows, hread⟩ | ⟨f, hf, hread⟩ := ofShorthand_cases limit depth cs
  · simp [hps, hrows, hread, eq_comm]
  · simp [hps, hrows, hread]
  · obtain hread | hread := hread <;> simp [hf, hread]

/-- The pattern of a word unrolls to what its symbols unroll to. -/
theorem expandAt_ofWord (hps : wordSymbols w = .ok ps) (hne : ps ≠ []) (hroom : (depth : Int) + 1 ≤ limit) :
    ∃ p inner, ofWord w = .ok p ∧ expandAt limit depth p = (expandEach limit inner ps).map List.flatten := by
  match ps, hne with
  | [p], _ =>
    refine ⟨p, depth, ofWord_of_wordSymbols_singleton hps, ?_⟩
    rw [expandEach, expandEach]
    cases expandAt limit depth p with
    | error f => rfl
    | ok row => simp [Bind.bind, Except.bind, Except.map]
  | p :: q :: ps, _ =>
    refine ⟨_, depth + 1, ofWord_of_wordSymbols hps, ?_⟩
    rw [expandAt, if_neg (by omega)]
    cases expandEach limit (depth + 1) (p :: q :: ps) <;> rfl

theorem ne_nil_of_wordSymbols {c : Char} (hps : wordSymbols w = .ok ps) (hc : c ∈ w)
    (hletter : (Stroke.ofChar? c).isSome = true) : ps ≠ [] := by
  rintro rfl
  rw [eq_none_of_wordSymbols hps c hc] at hletter
  cases hletter

/-- **The readers of letters with counts agree**: of a text that has a stroke letter, the shorthand and the word have one
row, or neither has a row. If neither has one, a count is too large or no number; the two may report different counts,
because the word reads all its counts before it repeats a stroke. -/
theorem ofShorthand_expand_ofWord (hletter : ∃ c ∈ w, String.ofList (Text.lower [c]) ∈ Stroke.alphabet)
    (hlimit : 1 ≤ limit) :
    (∃ p row, ofWord w = .ok p ∧ expand limit p = .ok row ∧ Stroke.ofShorthand w = .ok row) ∨
      (∃ p, ofWord w = .ok p ∧ expand limit p = .error .overflow ∧ Stroke.ofShorthand w = .error .overflow) ∨
      ∃ f, ofWord w = .error f ∧
        (Stroke.ofShorthand w = .error (.numeral f) ∨ Stroke.ofShorthand w = .error .overflow) := by
  obtain ⟨c, hc, hletter⟩ := hletter
  cases hps : wordSymbols w with
  | error f =>
    obtain ⟨_, _, hps', -⟩ | ⟨_, hps', -⟩ | ⟨g, hg, hread⟩ := ofShorthand_cases limit 0 w
    · simp [hps] at hps'
    · simp [hps] at hps'
    · obtain rfl : f = g := by simpa [hps] using hg
      exact .inr (.inr ⟨f, by rw [ofWord, hps], hread⟩)
  | ok ps =>
    have hne := ne_nil_of_wordSymbols hps hc (Stroke.isSome_ofChar?.2 hletter)
    obtain ⟨p, inner, hp, hrow⟩ := @expandAt_ofWord limit 0 _ _ hps hne (by omega)
    rw [← expand] at hrow
    obtain ⟨ps', rows, hps', hrows, hread⟩ | ⟨ps', hps', hrows, hread⟩ | ⟨f, hf, -⟩ := ofShorthand_cases limit inner w
    · obtain rfl : ps = ps' := by simpa [hps] using hps'
      exact .inl ⟨p, _, hp, by rw [hrow, hrows]; rfl, hread⟩
    · obtain rfl : ps = ps' := by simpa [hps] using hps'
      exact .inr (.inl ⟨p, hp, by rw [hrow, hrows]; rfl, hread⟩)
    · simp [hps] at hf

/-- The stray digit and the letter in front are passed over, and the count is in digits of another script. -/
theorem ofShorthand_expand_ofWord_pair :
    ∃ p row, ofWord "3Ωd٢H".toList = .ok p ∧ expand 1 p = .ok row ∧ Stroke.ofShorthand "3Ωd٢H".toList = .ok row ∧
      row = [⟨"d", false⟩, ⟨"d", false⟩, ⟨"h", true⟩] := by
  have hread : Stroke.ofShorthand "3Ωd٢H".toList = .ok [⟨"d", false⟩, ⟨"d", false⟩, ⟨"h", true⟩] := by
    with_unfolding_all rfl
  obtain ⟨p, row, hp, hrow, hrow'⟩ | ⟨p, -, -, hread'⟩ | ⟨f, -, hread' | hread'⟩ :=
    @ofShorthand_expand_ofWord 1 "3Ωd٢H".toList ⟨'d', by decide, by decide⟩ (by decide)
  · exact ⟨p, row, hp, hrow, hrow', Except.ok.inj (hrow'.symm.trans hread)⟩
  all_goals cases hread.symm.trans hread'

end

/-! ## Shorthand in pieces -/

theorem ofShorthand_append {a b : List Char} {row row' : List Stroke} (hb : ∀ c ∈ b.head?, Text.isDigit c = false)
    (ha : Stroke.ofShorthand a = .ok row) (hrow' : Stroke.ofShorthand b = .ok row') :
    Stroke.ofShorthand (a ++ b) = .ok (row ++ row') := by
  have hhead : ∀ c ∈ b.head?, ¬ Text.isDigit c = true := fun c hc => by simp [hb c hc]
  fun_induction Stroke.ofShorthand a generalizing row with
  | case1 =>
    cases ha
    exact hrow'
  | case2 c cs hc ih =>
    rw [List.cons_append, Stroke.ofShorthand, hc]
    exact ih ha
  | case3 => cases ha
  | case4 => cases ha
  | case5 c cs s hc n hn first hfirst ih =>
    obtain ⟨rest, hrest, rfl⟩ := map_eq_ok.1 ha
    have hn' : Stroke.repeatCount ((cs ++ b).takeWhile Text.isDigit) = .ok n := by
      rwa [Text.takeWhile_append_of_head fun _ => hhead]
    rw [List.cons_append, ofShorthand_cons_eq_ok hc hn', Text.dropWhile_append_of_head fun _ => hhead]
    exact ⟨first, rest ++ row', hfirst, ih hrest, List.append_assoc _ _ _⟩

theorem ofShorthand_blank {gap : List Char} (h : ∀ c ∈ gap, Text.isBlank c = true) (cs : List Char) :
    Stroke.ofShorthand (gap ++ cs) = Stroke.ofShorthand cs := by
  induction gap with
  | nil => rfl
  | cons c gap ih =>
    have hc : Stroke.ofChar? c = none := by
      by_contra hne
      obtain ⟨s, hs⟩ := Option.ne_none_iff_exists'.1 hne
      have hblank := Text.isBlank_of_isAlphanum (Text.isAlphanum_of_isAlpha (Stroke.isAlpha_of_ofChar? hs))
      rw [h c List.mem_cons_self] at hblank
      cases hblank
    rw [List.cons_append, Stroke.ofShorthand, hc]
    exact ih fun d hd => h d (List.mem_cons_of_mem _ hd)

/-! ## Shorthand that has a row -/

/-- No run of digits in a text has more than `k` digits. -/
def RunsWithin (k : Nat) (cs : List Char) : Prop :=
  ∀ ds, ds <:+: cs → (∀ c ∈ ds, c.isDigit = true) → ds.length ≤ k

theorem RunsWithin.of_infix {k : Nat} {cs ds : List Char} (h : RunsWithin k cs) (hd : ds <:+: cs) : RunsWithin k ds :=
  fun es he => h es (he.trans hd)

/-- Eighteen digits are read, and their number fits into a word. -/
theorem repeatCount_of_runsWithin {cs : List Char} (h : ∀ c ∈ cs, c.isAlphanum = true) (hshort : RunsWithin 18 cs) :
    ∃ n : Nat, Stroke.repeatCount (cs.takeWhile Text.isDigit) = .ok n ∧ Repetition.fits n = true := by
  have hdigits := Text.isDigit_of_mem_takeWhile h
  have hlength := hshort _ (List.takeWhile_prefix _).isInfix hdigits
  have hlt : Text.decimalValue (cs.takeWhile Text.isDigit) < 1000000000000000000 :=
    Nat.lt_of_lt_of_le (Text.decimalValue_lt _) (Nat.pow_le_pow_right (by decide) hlength)
  have hread := Numeral.read_of_isDigit hdigits (Nat.le_trans hlength (by decide))
  rw [Stroke.repeatCount]
  split
  · exact ⟨1, rfl, rfl⟩
  · refine ⟨_, hread, ?_⟩
    simp only [Repetition.fits, Bool.and_eq_true, decide_eq_true_eq]
    omega

theorem ofShorthand_total {cs : List Char} (h : ∀ c ∈ cs, c.isAlphanum = true) (hshort : RunsWithin 18 cs) :
    ∃ row, Stroke.ofShorthand cs = .ok row := by
  fun_induction Stroke.ofShorthand cs with
  | case1 => exact ⟨[], rfl⟩
  | case2 c cs hc ih =>
    have hin := (List.suffix_cons c cs).isInfix
    exact ih (fun d hd => h d (hin.subset hd)) (hshort.of_infix hin)
  | case3 c cs s hc f hf =>
    have hin := (List.suffix_cons c cs).isInfix
    obtain ⟨n, hn, -⟩ := repeatCount_of_runsWithin (fun d hd => h d (hin.subset hd)) (hshort.of_infix hin)
    simp [hf] at hn
  | case4 c cs s hc n hn hnone =>
    have hin := (List.suffix_cons c cs).isInfix
    obtain ⟨m, hm, hfits⟩ := repeatCount_of_runsWithin (fun d hd => h d (hin.subset hd)) (hshort.of_infix hin)
    obtain rfl : n = m := by simpa [hn] using hm
    simp [Repetition.copies?, hfits] at hnone
  | case5 c cs s hc n hn first hfirst ih =>
    have hin := (List.dropWhile_suffix Text.isDigit).isInfix.trans (List.suffix_cons c cs).isInfix
    obtain ⟨rest, hrest⟩ := ih (fun d hd => h d (hin.subset hd)) (hshort.of_infix hin)
    exact ⟨first ++ rest, by rw [hrest]; rfl⟩

/-! ## Words of strokes with space between them -/

/-- A word that has a stroke letter, is no keyword and repeats its strokes by numbers of at most 18 digits. -/
structure IsRowWord (w : List Char) : Prop where
  word : Token.IsWord w
  free : Token.isKeyword w = false
  letter : ∃ c ∈ w, String.singleton c.toLower ∈ Stroke.alphabet
  short : RunsWithin 18 w

/-- A text that is words with runs of white space between them. -/
inductive Spaced : List (List Char) → List Char → Prop where
  | one (w : List Char) : Spaced [w] w
  | more {w gap s : List Char} {ws : List (List Char)} (ne : gap ≠ [])
      (blank : ∀ c ∈ gap, Text.isBlank c = true) (rest : Spaced ws s) : Spaced (w :: ws) (w ++ (gap ++ s))

/-- A word has one row, whichever way it is read, and nests at most once. -/
theorem IsRowWord.row {w : List Char} (h : IsRowWord w) {limit : Int} (hlimit : 2 ≤ limit) :
    ∃ (q : Pattern) (row : List Stroke), ofWord w = .ok q ∧ q.nesting ≤ 1 ∧ Stroke.ofShorthand w = .ok row ∧
      expandAt limit 1 q = .ok row := by
  obtain ⟨row, hrow⟩ := ofShorthand_total h.word.2 h.short
  obtain ⟨ps, _, hps, -⟩ := (ofShorthand_eq_ok_iff limit 1).1 hrow
  obtain ⟨c, hc, hletter⟩ := h.letter
  have hne := ne_nil_of_wordSymbols hps hc (by simp [Stroke.ofChar?, hletter])
  obtain ⟨q, inner, hq, hunrolled⟩ := expandAt_ofWord hps hne (by omega : ((1 : Nat) : Int) + 1 ≤ limit)
  obtain ⟨ps', rows, hps', hrows, rfl⟩ := (ofShorthand_eq_ok_iff limit inner).1 hrow
  obtain rfl : ps = ps' := by simpa [hps] using hps'
  refine ⟨q, _, hq, ?_, hrow, by rw [hunrolled, hrows]; rfl⟩
  rw [nesting_ofWord hq]
  split <;> omega

/-! ## The members between the spaces -/

/-- **A row between spaces**: the tokens of words with white space between them derive members, which unroll to
the row that the text has as shorthand. -/
theorem Spaced.members {ws : List (List Char)} {s : List Char} (hs : Spaced ws s) (hws : ∀ w ∈ ws, IsRowWord w)
    {limit : Int} (hlimit : 2 ≤ limit) :
    ∃ row, Stroke.ofShorthand s = .ok row ∧ ∀ l : Location, ∃ (t : Token) (ts : List Token) (p : Pattern)
      (ps : List Pattern) (rows : List (List Stroke)), (Token.scan l s).1 = t :: ts ∧
        Derives .member [t] [p] ∧ Derives .members ts ps ∧ nestingEach (p :: ps) ≤ 1 ∧
        expandEach limit 1 (p :: ps) = .ok rows ∧ row = rows.flatten := by
  have hmember : ∀ {w : List Char} {q : Pattern} (l : Location), IsRowWord w → ofWord w = .ok q →
      Derives .member [⟨.symbol, String.ofList w, l⟩] [q] := fun l hw hq =>
    .memberSymbol (.symbol rfl (by rw [String.toList_ofList]; exact hq))
  induction hs with
  | one w =>
    have hw := hws w List.mem_cons_self
    obtain ⟨q, row, hq, hnesting, hrow, hunrolled⟩ := hw.row hlimit
    refine ⟨row, hrow, fun l => ⟨_, [], q, [], [row], ?_, hmember l hw hq, .noMembers, ?_, ?_, by simp⟩⟩
    · rw [Token.scan_word hw.word, hw.free]
      rfl
    · simp only [nestingEach]
      omega
    · exact expandEach_cons_eq_ok.2 ⟨row, [], hunrolled, rfl, rfl⟩
  | @more w gap s ws ne blank rest ih =>
    have hw := hws w List.mem_cons_self
    obtain ⟨q, row, hq, hnesting, hrow, hunrolled⟩ := hw.row hlimit
    obtain ⟨row', hrow', htokens⟩ := ih fun v hv => hws v (List.mem_cons_of_mem _ hv)
    obtain ⟨b, gap', rfl⟩ := List.exists_cons_of_ne_nil ne
    have hhead : ∀ c ∈ (b :: gap' ++ s).head?, Text.isBlank c = true := by
      rintro c ⟨⟩
      exact blank b List.mem_cons_self
    refine ⟨row ++ row', ?_, fun l => ?_⟩
    · exact ofShorthand_append (fun c hc => Text.isDigit_of_isBlank (hhead c hc)) hrow
        (by rw [ofShorthand_blank blank, hrow'])
    · have hapart : Token.Apart w (b :: gap' ++ s) := .of_head fun c hc => by
        by_contra hal
        have hblank := Text.isBlank_of_isAlphanum (Bool.not_eq_false _ ▸ hal)
        rw [hhead c hc] at hblank
        cases hblank
      obtain ⟨t, ts, p, ps, rows, hscan, hp, hps, hnestings, hrows, rfl⟩ := htokens ((l.after w).after (b :: gap'))
      refine ⟨_, t :: ts, q, p :: ps, row :: rows, ?_, hmember l hw hq, .moreMembers hp hps, ?_, ?_, by simp⟩
      · rw [Token.scan_append (Token.openQuote_of_alphanum hw.word.2) hapart, Token.scan_word hw.word, hw.free,
          Token.scan_loose (fun c hc => .inl (blank c hc)), hscan]
        rfl
      · rw [nestingEach]
        omega
      · exact expandEach_cons_eq_ok.2 ⟨row, rows, hunrolled, hrows, rfl⟩

/-- **The shorthand and its sequence agree**: words of strokes with white space between them have one row, as
shorthand and as the members of a sequence, so the text behind `$` compiles to the shorthand of that row. -/
theorem compileText_words {ws : List (List Char)} {s : String} {settings : Settings} (hs : Spaced ws s.toList)
    (hws : ∀ w ∈ ws, IsRowWord w) (hlimit : 2 ≤ settings.maxDepth) :
    ∃ row, Stroke.ofShorthand s.toList = .ok row ∧
      compileText settings ("$" ++ s) = .ok (Stroke.toShorthand row, []) := by
  obtain ⟨row, hrow, htokens⟩ := hs.members hws hlimit
  refine ⟨row, hrow, ?_⟩
  obtain ⟨t, ts, p, ps, rows, hscan, hp, hps, hnesting, hrows, rfl⟩ := htokens (Location.start.advance '$')
  have hsource : ("$" ++ s).toList = '$' :: s.toList := by simp
  have hparse : parse settings ("$" ++ s) = .ok (.sequence (p :: ps) .absent) := by
    rw [parse_eq_ok, hsource, Token.scan_mark rfl, hscan]
    have hderives : Derives .topLevel (⟨.dollar, String.ofList ['$'], .start⟩ :: t :: ts)
        [.sequence (p :: ps) .absent] := .plain (.patternSequence (.sequence rfl hp hps))
    refine ⟨[], readTopLevel_of_derives hderives ?_ _⟩
    simp only [nesting, Fits]
    omega
  have hexpand : expand settings.maxDepth (.sequence (p :: ps) .absent) = .ok rows.flatten :=
    expandAt_sequence_eq_ok.2 ⟨by omega, rows, hrows, rfl⟩
  have htrim : Text.trim ('$' :: s.toList) = '$' :: Text.trimRight s.toList := Text.trim_cons (by decide) _
  have hmark : '$' :: Text.trimRight s.toList ≠ Stroke.solidMark.toList := fun h => by cases h
  unfold compileText
  simp only [hsource, htrim, List.isEmpty_cons, Bool.false_eq_true, if_false, if_neg hmark, hparse]
  rw [compile, if_neg (by simp [isSolid, symbol?]), hexpand]
  rfl

theorem compileText_words_tab : compileText ⟨2, false⟩ "$d2Hq\t v\nx03" = .ok ("ddHvxxx".toList, []) := by
  have hspaced : Spaced ["d2Hq".toList, "v".toList, "x03".toList] "d2Hq\t v\nx03".toList :=
    .more (by decide : "\t ".toList ≠ []) (List.all_eq_true.1 (by decide))
      (.more (by decide : "\n".toList ≠ []) (List.all_eq_true.1 (by decide)) (.one _))
  have hwords : ∀ w ∈ ["d2Hq".toList, "v".toList, "x03".toList], IsRowWord w := by
    simp only [List.forall_mem_cons, List.not_mem_nil, false_imp_iff, implies_true, and_true]
    refine ⟨⟨⟨⟨'d', _, rfl, by decide⟩, List.all_eq_true.1 (by decide)⟩, by decide, ⟨'d', by decide, by decide⟩, ?_⟩,
      ⟨⟨⟨'v', _, rfl, by decide⟩, List.all_eq_true.1 (by decide)⟩, by decide, ⟨'v', by decide, by decide⟩, ?_⟩,
      ⟨⟨⟨'x', _, rfl, by decide⟩, List.all_eq_true.1 (by decide)⟩, by decide, ⟨'x', by decide, by decide⟩, ?_⟩⟩
    all_goals exact fun ds h _ => h.length_le.trans (by decide)
  obtain ⟨row, hrow, hcompiled⟩ := @compileText_words _ _ ⟨2, false⟩ hspaced hwords (by decide)
  have hvalue : Stroke.ofShorthand "d2Hq\t v\nx03".toList =
      .ok [⟨"d", false⟩, ⟨"d", false⟩, ⟨"h", true⟩, ⟨"v", false⟩, ⟨"x", false⟩, ⟨"x", false⟩, ⟨"x", false⟩] := by
    with_unfolding_all rfl
  obtain rfl : _ = row := Except.ok.inj (hvalue.symm.trans hrow)
  exact hcompiled

end Pattern

end Rosette
