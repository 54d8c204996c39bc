import Mathlib.Data.List.Forall2
import Rosette.Proofs.Pattern.Refusal
import Rosette.Proofs.Pattern.Relocation
import Rosette.Proofs.Token.Cut

/-!
# Errors point at the token that breaks a pattern

What `breaks_topLevel` says of tokens, said of texts. The tokens before the one that an error points at begin the tokens
of a text that is read where patterns may nest deep enough: the text in front of that token with some fillers written
behind it (`exists_completion`). And no tokens that are read under the limit, of whatever text, begin with those
up to that token and the token itself.

Main result: `breakingToken_of_parse`.
-/

namespace Rosette

namespace Token

variable {cs : List Char} {p : Location}

/-- A string that is open at the end of a text is one of its tokens. -/
theorem exists_string_of_openQuote (h : openQuote none cs ≠ none) (p : Location) :
    ∃ t ∈ (scan p cs).1, t.kind = .string := by
  induction cs using scan_induction generalizing p with
  | nil => exact absurd rfl h
  | skip c cs hnone ih =>
    obtain ⟨hdouble, hsingle⟩ := (Lexeme.read?_eq_none hnone).1
    have hstep : quoteAfter none c = none := by simp [quoteAfter, hdouble, hsingle]
    rw [openQuote_cons, hstep] at h
    rw [scan_skip hnone]
    exact ih h _
  | lexeme l cs hread ih =>
    rw [scan_lexeme hread]
    by_cases hk : l.kind = .string
    · exact ⟨_, List.mem_cons_self, hk⟩
    have hspan : openQuote none l.span = none := by
      cases Lexeme.munches_of_read? hread with
      | mark hmark => exact openQuote_of_plain (by simpa using Lexeme.not_quote_of_punctuation hmark)
      | closed | unclosed => exact absurd rfl hk
      | number hrun => exact openQuote_of_alphanum hrun.isAlphanum
      | word hword => exact openQuote_of_alphanum hword.2
    rw [openQuote_append, hspan] at h
    obtain ⟨t, ht, hkind⟩ := ih h (p.after l.span)
    exact ⟨t, List.mem_cons_of_mem _ ht, hkind⟩

end Token

namespace Pattern

open Token

variable {b b' : Bounds} {depth : Nat} {limit : Int} {source : String} {front : List Char}
  {before behind ts us init : List Token} {t : Token} {p : Pattern} {l : Location}

/-! ## Completed texts -/

/-- No part of a pattern is a string. -/
theorem Derives.kind_ne_string {n : Nonterminal} {ps : List Pattern} (h : Derives n ts ps) :
    ∀ t ∈ ts, t.kind ≠ .string := by
  induction h with
  | symbol kind | argumentNumber kind => simp [kind]
  | noMembers | noArguments => simp
  | memberSymbol _ ih | memberCommand _ ih | lastArgument _ ih | argumentSequence _ ih | argumentCommand _ ih
  | argumentSymbol _ ih | patternSequence _ ih | patternCommand _ ih | patternSymbol _ ih | plain _ ih => exact ih
  | moreMembers _ _ ih ihs => exact List.forall_mem_append.2 ⟨ih, ihs⟩
  | sequence kind _ _ ih ihs =>
    exact List.forall_mem_cons.2 ⟨by simp [kind], List.forall_mem_append.2 ⟨ih, ihs⟩⟩
  | command kind opens closes _ ih =>
    exact List.forall_mem_cons.2 ⟨by simp [kind], List.forall_mem_cons.2 ⟨by simp [opens],
      List.forall_mem_append.2 ⟨ih, by simp [closes]⟩⟩⟩
  | moreArguments _ kind _ ih ihs =>
    exact List.forall_mem_append.2 ⟨ih, List.forall_mem_cons.2 ⟨by simp [kind], ihs⟩⟩
  | argumentReference kind named =>
    refine List.forall_mem_cons.2 ⟨by simp [kind], List.forall_mem_singleton.2 ?_⟩
    rcases named with hk | hk <;> simp [hk]
  | counted _ mark kind _ ih => exact List.forall_mem_append.2 ⟨ih, by simp [mark, kind]⟩

/-- Tokens written with a space in front of each. -/
def spaced (ts : List Token) : List Char := ts.flatMap fun t => ' ' :: t.value.toList

theorem head?_spaced (ts : List Token) : ∀ c ∈ (spaced ts).head?, c.isAlphanum = false := by
  cases ts with
  | nil => simp [spaced]
  | cons t ts =>
    intro c hc
    cases hc
    decide

theorem scan_filler (h : t ∈ fillers) (p : Location) :
    openQuote none t.value.toList = none ∧ (scan p t.value.toList).1 = [{ t with location := p }] := by
  simp only [fillers, List.mem_cons, List.not_mem_nil, or_false] at h
  rcases h with rfl | rfl | rfl | rfl | rfl | rfl
  all_goals exact ⟨by decide, scan_whole rfl p⟩

/-- Fillers that are written behind a text are its tokens. -/
theorem scan_spaced (h : ts ⊆ fillers) (p : Location) :
    List.Forall₂ (Token.Alike fun _ _ => True) ts (scan p (spaced ts)).1 := by
  induction ts generalizing p with
  | nil =>
    rw [spaced, List.flatMap_nil, scan_nil]
    exact .nil
  | cons t ts ih =>
    obtain ⟨hquote, hscan⟩ := scan_filler (h List.mem_cons_self) (p.advance ' ')
    rw [spaced, List.flatMap_cons, List.cons_append, scan_space, ← spaced,
      scan_append hquote (.of_head (head?_spaced ts)), hscan]
    exact .cons ⟨rfl, rfl, trivial⟩ (ih (fun s hs => h (List.mem_cons_of_mem _ hs)) _)

/-- The same tokens in other places are read alike. -/
theorem readTopLevel_of_alike (hb : b'.maxDepth = b.maxDepth)
    (hts : List.Forall₂ (Token.Alike fun _ _ => True) ts us) {rest : List Token}
    (h : readTopLevel b false depth ts = .ok (p, rest)) : ∃ rest', readTopLevel b' false depth us = .ok (p, rest') := by
  have hbounds : Bounds.Alike (fun _ _ => True) b b' := ⟨hb, trivial⟩
  have hruns := alike_topLevel hbounds hts false depth
  rw [h] at hruns
  generalize readTopLevel b' false depth us = r at hruns
  cases hruns with
  | @ok _ c same =>
    obtain ⟨q, rest'⟩ := c
    obtain ⟨rfl, -⟩ := same
    exact ⟨rest', rfl⟩

theorem alike_self (ts : List Token) : List.Forall₂ (Token.Alike fun _ _ => True) ts ts :=
  List.forall₂_same.2 fun _ _ => ⟨rfl, rfl, trivial⟩

/-- The text in front of a place where a pattern breaks has a completion. -/
theorem exists_completion {more : List Token} (hscan : (scan .start front).1 = before) (hmore : more ⊆ fillers)
    (hd : Derives .topLevel (before ++ more) [p]) :
    ∃ text, before <+: tokenize text ∧ ∀ high : Int, (p.nesting : Int) ≤ high → parse ⟨high, false⟩ text = .ok p := by
  have hclosed : openQuote none front = none := by
    by_contra hopen
    obtain ⟨t, ht, hk⟩ := exists_string_of_openQuote hopen .start
    exact hd.kind_ne_string t (List.mem_append_left _ (hscan ▸ ht)) hk
  have htokens := scan_append hclosed (.of_head (head?_spaced more)) .start
  rw [hscan] at htokens
  refine ⟨String.ofList (front ++ spaced more), ?_, fun high hhigh => parse_eq_ok.2 ?_⟩
  · rw [tokenize_eq, String.toList_ofList, htokens, List.append_assoc]
    exact List.prefix_append _ _
  · rw [String.toList_ofList, htokens]
    have hfits : Fits high 0 p.nesting := .inr (by simpa using hhigh)
    have hread := readTopLevel_of_derives (b := ⟨high, .start⟩) hd hfits false
    have halike : List.Forall₂ (Token.Alike fun _ _ => True) (before ++ more)
        (before ++ (scan (Location.start.after front) (spaced more)).1) :=
      List.rel_append (alike_self before) (scan_spaced hmore _)
    exact readTopLevel_of_alike (b := ⟨high, .start⟩) rfl halike hread

/-! ## Token lists that are read -/

/-- Tokens that are read whole under a limit. The last one, and no other, is the end. -/
def Accepted (limit : Int) (ts : List Token) : Prop :=
  ∃ init stop p, ts = init ++ [endAt stop] ∧ (∀ t ∈ init, t.kind ≠ .eof) ∧
    (Reader.run ⟨⟨limit, stop⟩, init, 0⟩ false).1 = .ok p

/-- Tokens that begin, but for their places, with given ones. -/
def Begins (us ts : List Token) : Prop :=
  ∃ pre post, ts = pre ++ post ∧ List.Forall₂ (Token.Alike fun _ _ => True) pre us

theorem run_eq_ok {stop : Location} :
    (Reader.run ⟨⟨limit, stop⟩, init, 0⟩ false).1 = .ok p ↔
      ∃ rest, readTopLevel ⟨limit, stop⟩ false 0 init = .ok (p, rest) := by
  unfold Reader.run
  rcases readTopLevel ⟨limit, stop⟩ false 0 init with h | ⟨q, rest⟩ <;> simp

/-- The tokens of a text are read whole exactly if the text is. -/
theorem accepted_tokenize : Accepted limit (tokenize source) ↔ ∃ p, parse ⟨limit, false⟩ source = .ok p := by
  have hparse : ∀ p, parse ⟨limit, false⟩ source = .ok p ↔
      (Reader.run ⟨⟨limit, Location.start.after source.toList⟩, (scan .start source.toList).1, 0⟩ false).1 = .ok p := by
    intro p
    rw [parse_eq_ok, run_eq_ok, scan_snd]
  constructor
  · rintro ⟨init, stop, p, htokens, -, hrun⟩
    rw [tokenize_eq] at htokens
    obtain ⟨rfl, hend⟩ := List.append_inj' htokens rfl
    obtain rfl : Location.start.after source.toList = stop := by simpa [endAt] using hend
    exact ⟨p, (hparse p).2 hrun⟩
  · rintro ⟨p, hp⟩
    exact ⟨_, _, p, tokenize_eq source, fun t => kind_ne_eof_of_mem_scan, (hparse p).1 hp⟩

theorem kinds_of_alike {R : Location → Location → Prop} (h : List.Forall₂ (Token.Alike R) ts us) :
    us.map Token.kind = ts.map Token.kind := by
  induction h with
  | nil => rfl
  | cons ht _ ih => rw [List.map_cons, List.map_cons, ht.kind, ih]

/-- Where some tokens begin as those of a text do up to behind the next `seen`, a run over them without their end is one
over tokens that go on from there. -/
theorem exists_behind_of_begins {stop stop' : Location} {seen : Nat} (hinit : ∀ t ∈ init, t.kind ≠ .eof)
    (htokens : ∀ t ∈ before ++ behind, t.kind ≠ .eof)
    (h : Begins (before ++ (behind ++ [endAt stop]).take seen) (init ++ [endAt stop'])) :
    ∃ us, us.take seen = behind.take seen ∧ List.Forall₂ (Token.Alike fun _ _ => True) init (before ++ us) := by
  obtain ⟨pre, post, hts, hpre⟩ := h
  obtain hle | hlt := Nat.lt_or_ge behind.length seen
  · -- the end is seen, so there is nothing else
    rw [List.take_of_length_le (by simpa using Nat.succ_le_of_lt hle), ← List.append_assoc] at hpre
    have hfront := List.forall₂_take_append _ _ _ hpre
    have hend := List.forall₂_drop_append _ _ _ hpre
    rw [← List.take_append_drop (before ++ behind).length pre] at hts
    generalize pre.take (before ++ behind).length = front, pre.drop (before ++ behind).length = last at hts hfront hend
    obtain ⟨x, _, hx, hnil, rfl⟩ := List.forall₂_cons_right_iff.1 hend
    obtain rfl := List.forall₂_nil_right_iff.1 hnil
    refine ⟨behind, rfl, ?_⟩
    obtain rfl | ⟨post, y, rfl⟩ := post.eq_nil_or_concat
    · rw [List.append_nil] at hts
      rwa [(List.append_inj' hts rfl).1]
    · rw [List.concat_eq_append, ← List.append_assoc] at hts
      refine absurd hx.kind.symm (hinit x ?_)
      rw [(List.append_inj' hts rfl).1]
      simp
  · rw [List.take_append_of_le_length hlt] at hpre
    obtain rfl | ⟨post, y, rfl⟩ := post.eq_nil_or_concat
    · -- the end would be one of the tokens in front
      rw [List.append_nil] at hts
      have hkind : Kind.eof ∈ (before ++ behind.take seen).map Token.kind := by
        rw [kinds_of_alike hpre, ← hts]
        simp [endAt]
      obtain ⟨t, ht, hkind⟩ := List.mem_map.1 hkind
      rw [List.mem_append] at ht
      exact absurd hkind (htokens t (List.mem_append.2 (ht.imp_right List.mem_of_mem_take)))
    · rw [List.concat_eq_append, ← List.append_assoc] at hts
      obtain ⟨rfl, -⟩ := List.append_inj' hts rfl
      refine ⟨behind.take seen ++ post, List.take_left' (by rw [List.length_take, Nat.min_eq_left hlt]), ?_⟩
      rw [← List.append_assoc]
      exact List.rel_append hpre (alike_self post)

theorem Stray.of_end {e : Token} (h : Stray before behind) (he : e.kind ≠ .lparen) : Stray before (behind ++ [e]) := by
  obtain ⟨hfront, name, us, rfl, hname, hnone⟩ := h
  refine ⟨hfront, name, us ++ [e], rfl, hname, ?_⟩
  cases us with
  | nil => simpa using he
  | cons => exact hnone

/-- Tokens that begin as those of a text do up to where it breaks are not read. -/
theorem not_accepted_of_begins {stop : Location} (seen : Nat)
    (hrefuses : ∀ us, us.take seen = behind.take seen → ¬ Takes b 0 .topLevel (before ++ us))
    (htokens : ∀ t ∈ before ++ behind, t.kind ≠ .eof)
    (hbegins : Begins (before ++ (behind ++ [endAt stop]).take seen) ts) : ¬ Accepted b.maxDepth ts := by
  rintro ⟨init, stop', p, rfl, hinit, hrun⟩
  obtain ⟨rest, hread⟩ := run_eq_ok.1 hrun
  obtain ⟨us, hus, halike⟩ := exists_behind_of_begins hinit htokens hbegins
  exact hrefuses us hus ⟨p, readTopLevel_of_alike (b := ⟨b.maxDepth, stop'⟩) rfl halike hread⟩

/-- One token behind those that have a completion is refused, or two where the first is a stray name. -/
theorem not_accepted_of_refuses {stop : Location} {seen : Nat} (hseen : seen = 1 ∨ seen = 2 ∧ Stray before behind)
    (hrefuses : ∀ us, us.take seen = behind.take seen → ¬ Takes b 0 .topLevel (before ++ us))
    (htokens : ∀ t ∈ before ++ behind, t.kind ≠ .eof) (hend : behind ++ [endAt stop] = t :: us) :
    (¬ Stray before (t :: us) → ∀ ts, Begins (before ++ [t]) ts → ¬ Accepted b.maxDepth ts) ∧
      (Stray before (t :: us) → ∃ u vs, us = u :: vs ∧
        ∀ ts, Begins (before ++ [t, u]) ts → ¬ Accepted b.maxDepth ts) := by
  constructor
  · intro hstray ts hbegins
    obtain rfl | ⟨-, hshort⟩ := hseen
    · have hone : (behind ++ [endAt stop]).take 1 = [t] := by
        rw [hend]
        rfl
      exact not_accepted_of_begins 1 hrefuses htokens (hone ▸ hbegins)
    · exact absurd (hend ▸ hshort.of_end (by simp [endAt])) hstray
  · rintro ⟨-, name, ws, hname, hkind, -⟩
    cases hname
    obtain _ | ⟨s, ss⟩ := behind
    · cases hend
      cases hkind
    obtain ⟨rfl, hus⟩ : s = t ∧ ss ++ [endAt stop] = us := List.cons.inj hend
    obtain ⟨u, vs, rfl⟩ : ∃ u vs, us = u :: vs := List.exists_cons_of_ne_nil (by rw [← hus]; simp)
    have htwo : (s :: ss ++ [endAt stop]).take 2 = [s, u] := by
      rw [List.cons_append, hus]
      rfl
    refine ⟨u, vs, rfl, fun ts hbegins =>
      not_accepted_of_begins 2 (fun ws hws => hrefuses ws ?_) htokens (htwo ▸ hbegins)⟩
    obtain rfl | ⟨rfl, -⟩ := hseen
    · have hfewer := congrArg (List.take 1) hws
      rwa [List.take_take, List.take_take] at hfewer
    · exact hws

/-- The token that a run is at is the first of those that are left, and the end where none is. -/
theorem location_current {stop : Location} (h : behind ++ [endAt stop] = t :: us) :
    (Bounds.current ⟨limit, stop⟩ behind).location = t.location := by
  cases behind <;> cases h <;> rfl

/-- **Errors point at the token that breaks a pattern.** A text that is not read, though no run of digits in it is too
long, has its error at one of its tokens. Those before that token begin the tokens of a text that is read where
patterns may nest deep enough. With that token they begin none that are read under the limit; only if it is a stray
name, the one behind it is needed for that. -/
theorem breakingToken_of_parse {f : Fault} (hruns : ShortRuns source.toList)
    (h : parse ⟨limit, false⟩ source = .error f) :
    ∃ cause before t behind, f = .problem ⟨cause, t.location⟩ ∧ tokenize source = before ++ t :: behind ∧
      (∃ text q, before <+: tokenize text ∧
        ∀ high : Int, (q.nesting : Int) ≤ high → parse ⟨high, false⟩ text = .ok q) ∧
      (¬ Stray before (t :: behind) → ∀ ts, Begins (before ++ [t]) ts → ¬ Accepted limit ts) ∧
      (Stray before (t :: behind) → ∃ u us, behind = u :: us ∧
        ∀ ts, Begins (before ++ [t, u]) ts → ¬ Accepted limit ts) := by
  obtain ⟨p⟩ | f := f
  case numeral => exact absurd hruns (not_shortRuns_of_parse h)
  obtain ⟨halt, hread, hfault⟩ := parse_eq_error.1 h
  obtain ⟨before, behind, hscan, hplace, ⟨more, hmore, q, hd⟩, seen, hseen, hrefuses⟩ :=
    breaks_topLevel hread p hfault
  have htokens := tokenize_eq source
  have hkinds : ∀ t ∈ before ++ behind, t.kind ≠ .eof := fun t ht => kind_ne_eof_of_mem_scan (hscan ▸ ht)
  rw [hscan, List.append_assoc] at htokens
  obtain ⟨t, back, hback⟩ : ∃ t back, behind ++ [endAt (Location.start.after source.toList)] = t :: back :=
    List.exists_cons_of_ne_nil (by simp)
  rw [hback] at htokens
  obtain ⟨front, -, -, -, hfront, -⟩ := exists_front_of_tokenize htokens
  obtain ⟨text, hbefore, htext⟩ := exists_completion hfront hmore hd
  refine ⟨p.cause, before, t, back, ?_, htokens, ⟨text, q, hbefore, htext⟩,
    not_accepted_of_refuses hseen hrefuses hkinds hback⟩
  have hlocation : p.location = t.location := by rw [hplace, scan_snd, location_current hback]
  rw [← hlocation]

/-- In `seq(mir d` the name `mir` is pointed at for want of a parenthesis behind it. -/
theorem breakingToken_of_parse_stray :
    ∃ cause before t behind,
      Fault.problem ⟨.expected .symbol .identifier, ⟨1, 5, 4⟩⟩ = .problem ⟨cause, t.location⟩ ∧
      tokenize "seq(mir d" = before ++ t :: behind ∧
      (∃ text q, before <+: tokenize text ∧
        ∀ high : Int, (q.nesting : Int) ≤ high → parse ⟨high, false⟩ text = .ok q) ∧
      (¬ Stray before (t :: behind) → ∀ ts, Begins (before ++ [t]) ts → ¬ Accepted 1 ts) ∧
      (Stray before (t :: behind) → ∃ u us, behind = u :: us ∧
        ∀ ts, Begins (before ++ [t, u]) ts → ¬ Accepted 1 ts) := by
  have htokens : Token.scan .start "seq(mir d".toList =
      ([⟨.identifier, "seq", ⟨1, 1, 0⟩⟩, ⟨.lparen, "(", ⟨1, 4, 3⟩⟩, ⟨.identifier, "mir", ⟨1, 5, 4⟩⟩,
        ⟨.symbol, "d", ⟨1, 9, 8⟩⟩], ⟨1, 10, 9⟩) := by
    decide +kernel
  have hruns : ShortRuns "seq(mir d".toList := fun ds h _ => h.length_le.trans (by decide)
  refine breakingToken_of_parse hruns ?_
  simp only [parse, Reader.run, Reader.ofSource, htokens]
  simp [readTopLevel, readPattern, readCommand, readArguments, readArgument, Bounds.full, Bounds.halt, Bounds.current]

end Pattern

end Rosette
