import Rosette.Proofs.Location
import Rosette.Proofs.Token.Lexeme
import Rosette.Proofs.Token.Translation

/-!
# Texts cut in front of a token

A text that is cut in front of one of its tokens has the tokens before that one and no others (`tokenize_textBefore`),
and the text behind the cut has the others (`tokenize_textFrom`).
The cut need not be one where texts may be joined: in `3d` the number may be cut off although a word follows it at once.
What makes it work is that the text behind a lexeme can be cut short without the lexeme going on (`Lexeme.Munches.cut`).
-/

namespace Rosette.Token

variable {source : String} {a cs : List Char} {l : Lexeme} {t : Token} {us vs : List Token} {p : Location}

theorem head?_of_front {α : Type} {a b : List α} (h : a <+: b) : ∀ c ∈ a.head?, c ∈ b.head? := by
  obtain ⟨rest, rfl⟩ := h
  intro c hc
  cases a with
  | nil => cases hc
  | cons d a => exact hc

/-- A lexeme stays one where less text follows it. -/
theorem Lexeme.Munches.cut {behind behind' : List Char} (h : l.Munches behind) (hb : behind' <+: behind) :
    l.Munches behind' := by
  cases h with
  | mark h => exact .mark h
  | closed hq hv => exact .closed hq hv
  | unclosed hq hv =>
    rw [List.prefix_nil.1 hb]
    exact .unclosed hq hv
  | number h hstop => exact .number h fun d hd => hstop d (head?_of_front hb d hd)
  | word h hstop => exact .word h fun d hd => hstop d (head?_of_front hb d hd)

/-- A text in two parts, of which the second begins with a token, and the tokens of both. -/
theorem exists_front_of_scan (h : (scan p cs).1 = us ++ t :: vs) :
    ∃ front back, cs = front ++ back ∧ t.location = p.after front ∧ (scan p front).1 = us ∧
      (scan (p.after front) back).1 = t :: vs := by
  induction cs using scan_induction generalizing p us with
  | nil => simp at h
  | skip c cs hnone ih =>
    rw [scan_skip hnone] at h
    obtain ⟨front, back, rfl, hplace, hfront, hback⟩ := ih h
    refine ⟨c :: front, back, rfl, hplace, ?_, hback⟩
    rw [scan_skip ((Lexeme.read?_eq_none hnone).2 front)]
    exact hfront
  | lexeme l cs hread ih =>
    obtain _ | ⟨u, us⟩ := us
    · have hfirst := h
      rw [scan_lexeme hread] at hfirst
      obtain ⟨rfl, -⟩ := List.cons.inj hfirst
      exact ⟨[], l.span ++ cs, rfl, rfl, by simp, h⟩
    · rw [scan_lexeme hread] at h
      obtain ⟨rfl, hrest⟩ := List.cons.inj h
      obtain ⟨front, back, rfl, hplace, hfront, hback⟩ := ih hrest
      refine ⟨l.span ++ front, back, by simp, by rw [hplace, Location.after_append], ?_, ?_⟩
      · have hcut := ((Lexeme.munches_of_read? hread).cut (List.prefix_append front back)).read?_eq
        rw [scan_lexeme hcut, hfront]
      · rw [Location.after_append, hback]

/-- The text in front of a token. -/
def textBefore (source : String) (t : Token) : String := String.ofList (source.toList.take t.location.offset.toNat)

/-- The text from a token on. -/
def textFrom (source : String) (t : Token) : String := String.ofList (source.toList.drop t.location.offset.toNat)

/-- The end stands behind all tokens of a text. -/
theorem tokenize_eq (source : String) :
    tokenize source = (scan .start source.toList).1 ++ [endAt (Location.start.after source.toList)] := by
  rw [tokenize, Scanner.run, ← scan_snd]

theorem exists_front_of_tokenize (h : tokenize source = us ++ t :: vs) :
    ∃ front back, source.toList = front ++ back ∧ t.location = Location.start.after front ∧
      (scan .start front).1 = us ∧ (scan t.location back).1 ++ [endAt (t.location.after back)] = t :: vs := by
  rw [tokenize_eq] at h
  obtain rfl | ⟨vs, v, rfl⟩ := vs.eq_nil_or_concat
  · -- the token is the end
    obtain ⟨hus, hend⟩ := List.append_inj' h rfl
    obtain ⟨rfl, -⟩ := List.cons.inj hend
    exact ⟨source.toList, [], by simp, rfl, hus, by simp [endAt, Location.after_nil]⟩
  · rw [List.concat_eq_append, ← List.cons_append, ← List.append_assoc] at h
    obtain ⟨hscan, hend⟩ := List.append_inj' h rfl
    obtain ⟨rfl, -⟩ := List.cons.inj hend
    obtain ⟨front, back, hsource, hplace, hfront, hback⟩ := exists_front_of_scan hscan
    refine ⟨front, back, hsource, hplace, hfront, ?_⟩
    rw [hplace, hback, ← Location.after_append, ← hsource, List.concat_eq_append, List.cons_append]

/-- What stands in front of a token and from it on, for a text in two parts. -/
theorem textBefore_textFrom {front back : List Char} (hsource : source.toList = front ++ back)
    (hplace : t.location = Location.start.after front) :
    (textBefore source t).toList = front ∧ (textFrom source t).toList = back := by
  rw [textBefore, textFrom, String.toList_ofList, String.toList_ofList, hsource, hplace, Location.after_start]
  exact ⟨List.take_left, List.drop_left⟩

/-- **A text cut in front of a token has the tokens before it**, and the end where the token was. -/
theorem tokenize_textBefore (h : tokenize source = us ++ t :: vs) :
    tokenize (textBefore source t) = us ++ [endAt t.location] ∧
      (textBefore source t).toList <+: source.toList ∧
      t.location = Location.start.after (textBefore source t).toList := by
  obtain ⟨front, back, hsource, hplace, hfront, -⟩ := exists_front_of_tokenize h
  obtain ⟨htext, -⟩ := textBefore_textFrom hsource hplace
  rw [tokenize_eq, htext, hfront, hplace]
  exact ⟨rfl, ⟨back, hsource.symm⟩, rfl⟩

/-- **A text from a token on has the tokens from it on**, each moved by the text in front of the token. -/
theorem tokenize_textFrom (h : tokenize source = us ++ t :: vs) :
    (tokenize (textFrom source t)).map (·.behind (textBefore source t).toList) = t :: vs := by
  obtain ⟨front, back, hsource, hplace, -, hback⟩ := exists_front_of_tokenize h
  obtain ⟨hbefore, hfrom⟩ := textBefore_textFrom hsource hplace
  have hmoved := scan_behind (p := .start) (by decide) front back
  rw [Location.start_behind, ← hplace] at hmoved
  have hend := scan_snd t.location back
  rw [hmoved] at hback hend
  rw [tokenize_eq, hbefore, hfrom, List.map_append, ← hback, ← scan_snd, ← hend]
  rfl

end Rosette.Token
