import Rosette.Proofs.Location
import Rosette.Proofs.Token.Lexeme

/-!
# Maximal munch

What the tokens of a text are, said of the text and not of the scan (`IsMunch`): each covers a part of the text that
goes as far as it can, no two of them overlap, and what none of them covers could not begin one. A text has one such
list and no other, the one that scanning finds (`isMunch_iff`).

A scan stands where no word and no number reaches over from what it has passed (`Aligned`). So the lexeme it takes
next is the largest part of the text of its class, and not only the longest one from there.
-/

namespace Rosette.Token

/-! ## The decomposition of a text -/

/-- A token without its line and its column. -/
structure Piece where
  kind : Kind
  value : String
  position : Int
deriving DecidableEq, Repr

/-- What the token is, what it carries, and where it begins. -/
def piece (t : Token) : Piece := ⟨t.kind, t.value, t.location.offset⟩

/-- The part `span` of a text has a property, and no larger part around it does. -/
def IsMaximal (P : List Char → Prop) (before span behind : List Char) : Prop :=
  P span ∧ ∀ a b, a <:+ before → b <+: behind → P (a ++ (span ++ b)) → a = [] ∧ b = []

/-- The part `span` of a text lies inside a part that has a property. -/
def IsInside (P : List Char → Prop) (before span behind : List Char) : Prop :=
  ∃ a b, a <:+ before ∧ b <+: behind ∧ P (a ++ (span ++ b))

namespace Piece

/-- Where a token ends: behind its value, and a string behind the quote that follows it. An unterminated string has
no such quote. -/
def stop (t : Piece) (source : List Char) : Int :=
  if t.kind = .string then
    let inner := t.position + 1 + t.value.length
    if inner < source.length then inner + 1 else inner
  else t.position + t.value.length

/-- The token covers a place of the text. -/
def Covers (t : Piece) (source : List Char) (i : Nat) : Prop := t.position ≤ i ∧ i < t.stop source

/-- The text has at the position of the token what makes a token of its kind and value. -/
def IsIn (t : Piece) (source : List Char) : Prop :=
  ∃ before : List Char, t.position = before.length ∧
    match t.kind with
    | .eof => source = before ∧ t.value = ""
    | .string => ∃ q, IsQuote q ∧ q ∉ t.value.toList ∧
        ((∃ behind, source = before ++ q :: (t.value.toList ++ q :: behind)) ∨ source = before ++ q :: t.value.toList)
    | .number => ∃ behind, source = before ++ (t.value.toList ++ behind) ∧
        IsMaximal Text.IsRun before t.value.toList behind ∧ ¬ IsInside IsWord before t.value.toList behind
    | .identifier => ∃ behind, source = before ++ (t.value.toList ++ behind) ∧
        IsMaximal IsWord before t.value.toList behind ∧ String.ofList (Text.lower t.value.toList) ∈ keywords
    | .symbol => ∃ behind, source = before ++ (t.value.toList ++ behind) ∧
        IsMaximal IsWord before t.value.toList behind ∧ String.ofList (Text.lower t.value.toList) ∉ keywords
    | mark => ∃ c behind, source = before ++ c :: behind ∧ t.value.toList = [c] ∧ punctuation? c = some mark

end Piece

/-- The tokens of a text by maximal munch. -/
structure IsMunch (source : List Char) (ts : List Piece) : Prop where
  /-- One token is the end, the last one, and it stands behind the text. -/
  ends : ∃ (init : List Piece) (e : Piece), ts = init ++ [e] ∧ e.kind = .eof ∧ e.position = source.length ∧ ∀ t ∈ init, t.kind ≠ .eof
  /-- Tokens stand in the order of the text and do not overlap. -/
  ordered : ts.Pairwise fun t u => t.stop source ≤ u.position
  tokens : ∀ t ∈ ts, t.IsIn source
  /-- What is in no token begins none. -/
  gaps : ∀ (i : Nat) (c : Char), source[i]? = some c → (∀ t ∈ ts, ¬ t.Covers source i) → IsLoose c

/-! ## Where a scan stands -/

/-- No word and no number reaches over the place between two texts. -/
def Aligned (before rest : List Char) : Prop :=
  ∀ a b, a <:+ before → b <+: rest → a ≠ [] → b ≠ [] → ¬ IsWord (a ++ b) ∧ ¬ Text.IsRun (a ++ b)

theorem aligned_nil (rest : List Char) : Aligned [] rest := by
  intro a b ha _ hne _
  exact absurd (List.suffix_nil.1 ha) hne

/-- Where the characters on both sides do not make one run, nothing reaches over. -/
theorem Apart.aligned {before rest : List Char} (h : Apart before rest) : Aligned before rest := by
  intro a b ha hb hane hbne
  have hnot : ¬ ∀ c ∈ a ++ b, c.isAlphanum = true := by
    intro hall
    obtain ⟨a', rfl⟩ := ha
    obtain ⟨b', rfl⟩ := hb
    obtain ⟨y, bs, rfl⟩ := List.exists_cons_of_ne_nil hbne
    refine h.suffix (a.getLast hane) (List.getLast?_eq_some_getLast hane) y rfl ⟨?_, ?_⟩
    · exact hall _ (List.mem_append_left _ (List.getLast_mem hane))
    · exact hall _ (List.mem_append_right _ List.mem_cons_self)
  exact ⟨fun hw => hnot hw.2, fun hr => hnot hr.isAlphanum⟩

theorem Aligned.skip {before cs : List Char} {c : Char} (h : Lexeme.read? (c :: cs) = none) :
    Aligned (before ++ [c]) cs := by
  have hc : c.isAlphanum = false := by
    by_contra hc
    rw [Bool.not_eq_false, Text.isAlphanum_iff] at hc
    rcases hc with hc | hc
    · simp [Lexeme.read?_letter hc] at h
    · simp [Lexeme.read?_digit hc] at h
  refine Apart.aligned fun x hx y _ hxy => ?_
  rw [List.getLast?_concat, Option.mem_def, Option.some.injEq] at hx
  rw [← hx, hc] at hxy
  exact absurd hxy.1 (by simp)

theorem not_isWord_of_isDigit {c : Char} {cs : List Char} (h : c.isDigit = true) : ¬ IsWord (c :: cs) := by
  rintro ⟨⟨d, ds, heq, hd⟩, -⟩
  cases heq
  rw [isDigit_eq_false_of_isAlpha hd] at h
  cases h

/-- Behind a number a word may begin, but it does not begin before the number. -/
theorem Aligned.lexeme {before behind : List Char} {l : Lexeme} (haligned : Aligned before (l.span ++ behind))
    (h : l.Munches behind) : Aligned (before ++ l.span) behind := by
  have hconcat : ∀ (s : List Char) (d : Char), d.isAlphanum = false → Apart (before ++ (s ++ [d])) behind := by
    intro s d hd x hx y _ hxy
    rw [← List.append_assoc, List.getLast?_concat, Option.mem_def, Option.some.injEq] at hx
    rw [← hx, hd] at hxy
    exact absurd hxy.1 (by simp)
  have hquote : ∀ q, IsQuote q → q.isAlphanum = false := by
    rintro q (rfl | rfl) <;> decide
  cases h with
  | @mark c k _ h =>
    have hc : c.isAlphanum = false := by
      by_contra hc
      rw [Bool.not_eq_false] at hc
      rw [punctuation?_of_isAlphanum hc] at h
      cases h
    exact (hconcat [] c hc).aligned
  | @closed q v _ hq _ => exact (hconcat (q :: v) q (hquote q hq)).aligned
  | unclosed hq _ => exact Apart.aligned (Apart.of_head (by simp))
  | @word w _ _ hstop => exact Apart.aligned (Apart.of_head hstop)
  | @number ds _ hds hstop =>
    intro a b ha hb hane hbne
    have hrun : ¬ Text.IsRun (a ++ b) := by
      intro hr
      obtain ⟨b', rfl⟩ := hb
      obtain ⟨y, bs, rfl⟩ := List.exists_cons_of_ne_nil hbne
      have := hr.digits y (List.mem_append_right _ List.mem_cons_self)
      rw [hstop y rfl] at this
      cases this
    refine ⟨fun hw => ?_, hrun⟩
    -- a word begins with a letter, so it would begin before the number and reach over into it
    have hshort : ¬ a <:+ ds := by
      intro hads
      obtain ⟨c, cs, rfl⟩ := List.exists_cons_of_ne_nil hane
      exact not_isWord_of_isDigit (hds.digits c (hads.subset List.mem_cons_self)) hw
    obtain hads | ⟨a', rfl⟩ := List.suffix_or_suffix_of_suffix ha (List.suffix_append before ds)
    · exact hshort hads
    · have ha' : a' <:+ before := List.suffix_append_self_iff.1 ha
      have hne : a' ≠ [] := fun hnil => hshort (by simp [hnil])
      rw [List.append_assoc] at hw
      exact (haligned a' (ds ++ b) ha' ((List.prefix_append_right_inj ds).2 hb) hne (by simp [hbne])).1 hw

/-! ## Lexemes as tokens -/

section
variable {before behind : List Char} {l : Lexeme}

/-- The token of a lexeme behind a text. -/
def Lexeme.pieceBehind (l : Lexeme) (before : List Char) : Piece := ⟨l.kind, String.ofList l.value, before.length⟩

theorem stop_pieceBehind (h : l.Munches behind) :
    (l.pieceBehind before).stop (before ++ (l.span ++ behind)) = before.length + l.span.length := by
  unfold Lexeme.pieceBehind Piece.stop
  cases h with
  | @mark c k _ h =>
    have hk := (kind_of_punctuation? h).1
    simp [hk]
  | closed hq hv =>
    simp only [if_true, String.length_ofList, List.length_append, List.length_cons, List.length_nil]
    split <;> omega
  | unclosed hq hv =>
    simp only [if_true, String.length_ofList, List.length_append, List.length_cons, List.length_nil]
    split <;> omega
  | number h hstop => simp
  | word h hstop =>
    have hk : ∀ b : Bool, (if b then Kind.identifier else Kind.symbol) ≠ .string := by decide
    simp [hk]

theorem isKeyword_iff_lower {w : List Char} (h : IsWord w) :
    isKeyword w = true ↔ String.ofList (Text.lower w) ∈ keywords := by
  rw [Text.lower_of_ascii fun c hc => Text.ascii_of_isAlphanum (h.2 c hc), isKeyword, List.contains_iff_mem]

/-- A part of a text is as large as it can be if nothing reaches over its front and it cannot go on behind. -/
theorem isMaximal_of_aligned {P : List Char → Prop} {span : List Char} (hne : span ≠ []) (hspan : P span)
    (hleft : ∀ a b, a <:+ before → b <+: span ++ behind → a ≠ [] → b ≠ [] → ¬ P (a ++ b))
    (hright : ∀ d b, d ∈ behind.head? → ¬ P (span ++ d :: b)) : IsMaximal P before span behind := by
  refine ⟨hspan, fun a b ha hb hP => ?_⟩
  have hanil : a = [] := by
    by_contra hane
    exact hleft a (span ++ b) ha ((List.prefix_append_right_inj span).2 hb) hane (by simp [hne]) hP
  refine ⟨hanil, ?_⟩
  subst hanil
  cases b with
  | nil => rfl
  | cons d b =>
    obtain ⟨rest, rfl⟩ := hb
    exact absurd hP (hright d b rfl)

/-- Digits in front of which a scan stands are in no word. -/
theorem not_isInside_of_aligned {ds : List Char} (h : Text.IsRun ds) (haligned : Aligned before (ds ++ behind)) :
    ¬ IsInside IsWord before ds behind := by
  rintro ⟨a, b, ha, hb, hw⟩
  cases a with
  | nil =>
    obtain ⟨c, cs, rfl⟩ := List.exists_cons_of_ne_nil h.ne_nil
    exact not_isWord_of_isDigit (h.digits c List.mem_cons_self) hw
  | cons c a =>
    refine (haligned _ (ds ++ b) ha ((List.prefix_append_right_inj ds).2 hb) (by simp) ?_).1 hw
    simp [h.ne_nil]

theorem isIn_pieceBehind (h : l.Munches behind) (haligned : Aligned before (l.span ++ behind)) :
    (l.pieceBehind before).IsIn (before ++ (l.span ++ behind)) := by
  refine ⟨before, rfl, ?_⟩
  unfold Lexeme.pieceBehind
  cases h with
  | @mark c k _ h =>
    have hmark : ∃ (d : Char) (rest : List Char), before ++ ([c] ++ behind) = before ++ d :: rest ∧
        (String.ofList [c]).toList = [d] ∧ punctuation? d = some k := ⟨c, behind, rfl, String.toList_ofList, h⟩
    unfold punctuation? at h
    split at h <;> cases h <;> exact hmark
  | @closed q v _ hq hv =>
    simp only [String.toList_ofList]
    exact ⟨q, hq, hv, .inl ⟨behind, by simp⟩⟩
  | @unclosed q v hq hv =>
    simp only [String.toList_ofList]
    exact ⟨q, hq, hv, .inr (by simp)⟩
  | @number ds _ h hstop =>
    simp only [String.toList_ofList]
    refine ⟨behind, rfl, isMaximal_of_aligned h.ne_nil h (fun a b ha hb hane hbne => (haligned a b ha hb hane hbne).2)
      fun d b hd hP => ?_, not_isInside_of_aligned h haligned⟩
    have := hP.digits d (by simp)
    rw [hstop d hd] at this
    cases this
  | @word w _ h hstop =>
    have hmax : IsMaximal IsWord before w behind := by
      have hne : w ≠ [] := by
        obtain ⟨⟨c, cs, rfl, -⟩, -⟩ := h
        simp
      refine isMaximal_of_aligned hne h (fun a b ha hb hane hbne => (haligned a b ha hb hane hbne).1)
        fun d b hd hP => ?_
      have := hP.2 d (by simp)
      rw [hstop d hd] at this
      cases this
    cases hk : isKeyword w with
    | true =>
      simp only [if_true, String.toList_ofList]
      exact ⟨behind, rfl, hmax, (isKeyword_iff_lower h).1 hk⟩
    | false =>
      simp only [Bool.false_eq_true, if_false, String.toList_ofList]
      exact ⟨behind, rfl, hmax, fun hmem => by simp [(isKeyword_iff_lower h).2 hmem] at hk⟩

/-- A run that is as large as it can be is not gone on with. -/
theorem IsMaximal.not_cons {P : List Char → Prop} {span : List Char} (h : IsMaximal P before span behind) {d : Char}
    (hd : d ∈ behind.head?) : ¬ P (span ++ [d]) := by
  intro hP
  obtain ⟨rest, rfl⟩ : ∃ rest, behind = d :: rest := by
    cases behind with
    | nil => simp at hd
    | cons e rest =>
      cases hd
      exact ⟨rest, rfl⟩
  have := (h.2 [] [d] List.nil_suffix (by simp) hP).2
  cases this

/-- What stands behind a largest part is of no class that the part goes on with. -/
theorem IsMaximal.stops {P : List Char → Prop} {p : Char → Bool} {span : List Char} (h : IsMaximal P before span behind)
    (hgrow : ∀ d, p d = true → P (span ++ [d])) : ∀ d ∈ behind.head?, p d = false := by
  intro d hd
  by_contra hp
  exact h.not_cons hd (hgrow d (by simpa using hp))

theorem isWord_concat {w : List Char} (h : IsWord w) {d : Char} (hd : d.isAlphanum = true) : IsWord (w ++ [d]) := by
  obtain ⟨⟨c, cs, rfl, hc⟩, hall⟩ := h
  exact ⟨⟨c, cs ++ [d], rfl, hc⟩, List.forall_mem_append.2 ⟨hall, List.forall_mem_singleton.2 hd⟩⟩

theorem isRun_concat {ds : List Char} (h : Text.IsRun ds) {d : Char} (hd : d.isDigit = true) :
    Text.IsRun (ds ++ [d]) :=
  ⟨by simp, List.forall_mem_append.2 ⟨h.digits, List.forall_mem_singleton.2 hd⟩⟩

/-- A token of a text is that of the lexeme at its position. -/
theorem exists_lexeme_of_isIn {t : Piece} {source : List Char} (h : t.IsIn source) (hk : t.kind ≠ .eof) :
    ∃ (before behind : List Char) (l : Lexeme), source = before ++ (l.span ++ behind) ∧ l.Munches behind ∧
      t = l.pieceBehind before := by
  obtain ⟨k, v, position⟩ := t
  obtain ⟨before, hpos, h⟩ := h
  simp only at hpos h hk
  subst hpos
  have hvalue : v = String.ofList v.toList := String.ofList_toList.symm
  split at h
  · exact absurd rfl hk
  · obtain ⟨q, hq, hv, ⟨behind, rfl⟩ | rfl⟩ := h
    · exact ⟨before, behind, _, by simp, .closed hq hv, by rw [Lexeme.pieceBehind, ← hvalue]⟩
    · exact ⟨before, [], _, by simp, .unclosed hq hv, by rw [Lexeme.pieceBehind, ← hvalue]⟩
  · obtain ⟨behind, rfl, hmax, -⟩ := h
    exact ⟨before, behind, _, rfl, .number hmax.1 (hmax.stops fun d => isRun_concat hmax.1),
      by rw [Lexeme.pieceBehind, ← hvalue]⟩
  · obtain ⟨behind, rfl, hmax, hmem⟩ := h
    refine ⟨before, behind, _, rfl, .word hmax.1 (hmax.stops fun d => isWord_concat hmax.1), ?_⟩
    rw [Lexeme.pieceBehind, if_pos ((isKeyword_iff_lower hmax.1).2 hmem), ← hvalue]
  · obtain ⟨behind, rfl, hmax, hmem⟩ := h
    refine ⟨before, behind, _, rfl, .word hmax.1 (hmax.stops fun d => isWord_concat hmax.1), ?_⟩
    rw [Lexeme.pieceBehind, if_neg (mt (isKeyword_iff_lower hmax.1).1 hmem), ← hvalue]
  · obtain ⟨c, behind, rfl, hv, hc⟩ := h
    exact ⟨before, behind, _, rfl, .mark hc, by rw [Lexeme.pieceBehind, ← hv, ← hvalue]⟩

end

/-! ## The lexemes of a text -/

/-- The tokens of a text from a place on, by maximal munch and without the end. -/
structure IsMunchFrom (source : List Char) (start : Nat) (ts : List Piece) : Prop where
  inside : ∀ t ∈ ts, t.kind ≠ .eof ∧ (start : Int) ≤ t.position
  ordered : ts.Pairwise fun t u => t.stop source ≤ u.position
  tokens : ∀ t ∈ ts, t.IsIn source
  gaps : ∀ (i : Nat) (c : Char), start ≤ i → source[i]? = some c → (∀ t ∈ ts, ¬ t.Covers source i) → IsLoose c

namespace IsMunchFrom

variable {before : List Char} {ts : List Piece}

/-- A token behind a part of the text is that of a lexeme of the rest. -/
theorem exists_lexeme {rest : List Char} (h : IsMunchFrom (before ++ rest) before.length ts) {t : Piece} (ht : t ∈ ts) :
    ∃ (passed behind : List Char) (l : Lexeme), rest = passed ++ (l.span ++ behind) ∧ l.Munches behind ∧
      t = l.pieceBehind (before ++ passed) ∧
      t.stop (before ++ rest) = before.length + passed.length + l.span.length := by
  obtain ⟨hk, hpos⟩ := h.inside t ht
  obtain ⟨front, behind, l, hsource, hl, rfl⟩ := exists_lexeme_of_isIn (h.tokens t ht) hk
  have hle : before.length ≤ front.length := by
    simp only [Lexeme.pieceBehind] at hpos
    omega
  obtain ⟨passed, rfl⟩ : before <+: front :=
    List.prefix_of_prefix_length_le (List.prefix_append _ rest) (hsource ▸ List.prefix_append _ _) hle
  have hstop : (l.pieceBehind (before ++ passed)).stop _ = _ := stop_pieceBehind hl
  rw [← hsource, List.length_append] at hstop
  push_cast at hstop
  rw [List.append_assoc] at hsource
  exact ⟨passed, behind, l, List.append_cancel_left hsource, hl, rfl, hstop⟩

theorem nil_iff : IsMunchFrom (before ++ []) before.length ts ↔ ts = [] := by
  constructor
  · intro h
    rw [List.eq_nil_iff_forall_not_mem]
    intro t ht
    obtain ⟨passed, behind, l, hrest, hl, -⟩ := h.exists_lexeme ht
    obtain ⟨c, s, hs, -⟩ := hl.not_isLoose
    simp [hs] at hrest
  · rintro rfl
    refine ⟨by simp, .nil, by simp, fun i c hi hc _ => ?_⟩
    rw [List.append_nil, List.getElem?_eq_none hi] at hc
    cases hc

theorem skip_iff {c : Char} {cs : List Char} (hnone : Lexeme.read? (c :: cs) = none) :
    IsMunchFrom (before ++ c :: cs) before.length ts ↔
      IsMunchFrom (before ++ [c] ++ cs) (before ++ [c]).length ts := by
  have hsource : before ++ [c] ++ cs = before ++ c :: cs := by simp
  rw [hsource, List.length_append, List.length_singleton]
  constructor
  · intro h
    refine ⟨fun t ht => ⟨(h.inside t ht).1, ?_⟩, h.ordered, h.tokens, fun i d hi => h.gaps i d (by omega)⟩
    obtain ⟨passed, behind, l, hrest, hl, rfl, -⟩ := h.exists_lexeme ht
    cases passed with
    | nil =>
      -- a token here would be a lexeme
      rw [List.nil_append] at hrest
      rw [hrest, hl.read?_eq] at hnone
      cases hnone
    | cons d passed =>
      simp only [Lexeme.pieceBehind, List.length_append, List.length_cons]
      omega
  · intro h
    refine ⟨fun t ht => ⟨(h.inside t ht).1, ?_⟩, h.ordered, h.tokens, fun i d hi hd hcov => ?_⟩
    · have := (h.inside t ht).2
      omega
    · by_cases hib : i = before.length
      · subst hib
        rw [List.getElem?_append_right (Nat.le_refl _), Nat.sub_self, List.getElem?_cons_zero, Option.some.injEq] at hd
        subst hd
        exact Lexeme.isLoose_of_read? hnone
      · exact h.gaps i d (by omega) hd hcov

section
variable {l : Lexeme} {cs : List Char} (hl : l.Munches cs)
include hl

/-- The token of the lexeme in front comes first. -/
theorem exists_eq_cons (h : IsMunchFrom (before ++ (l.span ++ cs)) before.length ts) :
    ∃ us, ts = l.pieceBehind before :: us := by
  obtain ⟨c, s, hs, hloose⟩ := hl.not_isLoose
  -- some token covers the first character of the lexeme, and begins with it
  obtain ⟨t, ht, hcov⟩ : ∃ t ∈ ts, t.Covers (before ++ (l.span ++ cs)) before.length := by
    by_contra hnone
    simp only [not_exists, not_and] at hnone
    exact hloose (h.gaps before.length c (Nat.le_refl _) (by simp [hs]) hnone)
  obtain rfl : t = l.pieceBehind before := by
    obtain ⟨passed, behind, m, hrest, hm, rfl, -⟩ := h.exists_lexeme ht
    obtain rfl : passed = [] := by
      have := hcov.1
      simp only [Lexeme.pieceBehind, List.length_append] at this
      exact List.length_eq_zero_iff.1 (by omega)
    have hread := hl.read?_eq
    rw [hrest, List.nil_append, hm.read?_eq] at hread
    cases hread
    rw [List.append_nil]
  obtain ⟨us, vs, rfl⟩ := List.append_of_mem ht
  -- nothing stands before it, because all tokens are behind `before`
  obtain rfl : us = [] := by
    rw [List.eq_nil_iff_forall_not_mem]
    intro u hu
    have hle := (List.pairwise_append.1 h.ordered).2.2 u hu _ List.mem_cons_self
    obtain ⟨passed, behind, m, -, hm, -, hstop⟩ := h.exists_lexeme (List.mem_append_left _ hu)
    obtain ⟨d, r, hr, -⟩ := hm.not_isLoose
    have hlength : 0 < m.span.length := by simp [hr]
    rw [hstop] at hle
    simp only [Lexeme.pieceBehind] at hle
    omega
  exact ⟨vs, rfl⟩

theorem lexeme_iff (haligned : Aligned before (l.span ++ cs)) :
    IsMunchFrom (before ++ (l.span ++ cs)) before.length ts ↔
      ∃ us, ts = l.pieceBehind before :: us ∧ IsMunchFrom (before ++ l.span ++ cs) (before ++ l.span).length us := by
  rw [List.append_assoc before, List.length_append]
  have hstop : (l.pieceBehind before).stop _ = _ := stop_pieceBehind hl
  constructor
  · intro h
    obtain ⟨us, rfl⟩ := h.exists_eq_cons hl
    obtain ⟨hfirst, hordered⟩ := List.pairwise_cons.1 h.ordered
    refine ⟨us, rfl, fun u hu => ⟨(h.inside u (List.mem_cons_of_mem _ hu)).1, ?_⟩, hordered,
      fun u hu => h.tokens u (List.mem_cons_of_mem _ hu), fun i d hi hd hcov => ?_⟩
    · have := hfirst u hu
      rw [hstop] at this
      push_cast
      exact this
    · refine h.gaps i d (by omega) hd (List.forall_mem_cons.2 ⟨fun hfront => ?_, hcov⟩)
      have := hfront.2
      rw [hstop] at this
      omega
  · rintro ⟨us, rfl, h⟩
    refine ⟨List.forall_mem_cons.2 ⟨⟨hl.kind_ne_eof, Int.le_refl _⟩, fun u hu => ⟨(h.inside u hu).1, ?_⟩⟩,
      List.pairwise_cons.2 ⟨fun u hu => ?_, h.ordered⟩,
      List.forall_mem_cons.2 ⟨isIn_pieceBehind hl haligned, h.tokens⟩, fun i d hi hd hcov => ?_⟩
    · have := (h.inside u hu).2
      push_cast at this
      omega
    · have := (h.inside u hu).2
      rw [hstop]
      push_cast at this
      exact this
    · obtain ⟨hfirst, hrest⟩ := List.forall_mem_cons.1 hcov
      refine h.gaps i d ?_ hd hrest
      by_contra hlt
      refine hfirst ⟨?_, ?_⟩
      · simp only [Lexeme.pieceBehind]
        omega
      · rw [hstop]
        omega

end

end IsMunchFrom

/-- **The run of a scan**: from where a scan stands, the tokens by maximal munch are those it finds. -/
theorem isMunchFrom_iff {before rest : List Char} (haligned : Aligned before rest) (ts : List Piece) :
    IsMunchFrom (before ++ rest) before.length ts ↔ ts = (scan (Location.start.after before) rest).1.map piece := by
  induction rest using scan_induction generalizing before ts with
  | nil => rw [IsMunchFrom.nil_iff, scan_nil, List.map_nil]
  | skip c cs hnone ih =>
    rw [IsMunchFrom.skip_iff hnone, ih (Aligned.skip hnone), scan_skip hnone, Location.after_append]
    rfl
  | lexeme l cs hread ih =>
    have hl := Lexeme.munches_of_read? hread
    have hpiece : piece ⟨l.kind, String.ofList l.value, Location.start.after before⟩ = l.pieceBehind before := by
      rw [piece, Location.after_start, Lexeme.pieceBehind]
    rw [IsMunchFrom.lexeme_iff hl haligned, scan_lexeme hread, List.map_cons, hpiece, ← Location.after_append]
    constructor
    · rintro ⟨us, rfl, hus⟩
      rw [(ih (haligned.lexeme hl) us).1 hus]
    · rintro rfl
      exact ⟨_, rfl, (ih (haligned.lexeme hl) _).2 rfl⟩

/-- The end of a text covers nothing of it. -/
theorem isMunch_iff_isMunchFrom {source : List Char} {ts : List Piece} :
    IsMunch source ts ↔ ∃ init, ts = init ++ [⟨.eof, "", source.length⟩] ∧ IsMunchFrom source 0 init := by
  constructor
  · intro h
    obtain ⟨init, ⟨k, v, position⟩, rfl, rfl, rfl, hinit⟩ := h.ends
    obtain ⟨before, -, -, rfl⟩ := h.tokens _ (List.mem_append_right _ List.mem_cons_self)
    refine ⟨init, rfl, fun t ht => ⟨hinit t ht, ?_⟩, (List.pairwise_append.1 h.ordered).1,
      fun t ht => h.tokens t (List.mem_append_left _ ht), fun i c _ hc hcov => h.gaps i c hc fun t ht => ?_⟩
    · obtain ⟨front, hfront, -⟩ := h.tokens t (List.mem_append_left _ ht)
      omega
    · rcases List.mem_append.1 ht with ht | ht
      · exact hcov t ht
      · rw [List.mem_singleton.1 ht]
        rintro ⟨hle, hlt⟩
        simp [Piece.stop] at hle hlt
        omega
  · rintro ⟨init, rfl, h⟩
    refine ⟨⟨init, _, rfl, rfl, rfl, fun t ht => (h.inside t ht).1⟩, ?_, ?_, ?_⟩
    · refine List.pairwise_append.2 ⟨h.ordered, List.pairwise_singleton _ _, fun t ht e he => ?_⟩
      obtain ⟨passed, behind, l, hsource, -, -, hstop⟩ := @IsMunchFrom.exists_lexeme [] init source h t ht
      rw [List.mem_singleton.1 he, ← List.nil_append source, hstop, hsource]
      simp only [List.nil_append, List.length_nil, List.length_append]
      omega
    · intro t ht
      rcases List.mem_append.1 ht with ht | ht
      · exact h.tokens t ht
      · rw [List.mem_singleton.1 ht]
        exact ⟨source, rfl, rfl, rfl⟩
    · exact fun i c hc hcov => h.gaps i c (Nat.zero_le _) hc fun t ht => hcov t (List.mem_append_left _ ht)

/-- **The tokens of a text are its decomposition by maximal munch**, and a text has no other one. -/
theorem isMunch_iff (source : String) (ts : List Piece) :
    IsMunch source.toList ts ↔ ts = (tokenize source).map piece := by
  have hscan := @isMunchFrom_iff [] source.toList (aligned_nil _)
  have hend : piece (endAt (scan .start source.toList).2) = ⟨.eof, "", source.toList.length⟩ := by
    rw [scan_snd, endAt, piece, Location.after_start]
  rw [isMunch_iff_isMunchFrom, tokenize, Scanner.run]
  simp only [List.map_append, List.map_cons, List.map_nil, hend]
  constructor
  · rintro ⟨init, rfl, h⟩
    rw [(hscan init).1 h]
    rfl
  · rintro rfl
    exact ⟨_, rfl, (hscan _).2 rfl⟩

end Rosette.Token
