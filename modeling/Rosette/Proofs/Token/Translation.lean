import Rosette.Proofs.Location
import Rosette.Proofs.Token.Composition

/-!
# Tokens moved with their text

A text behind another has the tokens that it has alone, each moved by the text in front: by its lines, by the
characters behind its last line feed, and by its length (`tokenize_append`). Columns move on the first line only,
so a scan stays in step with the moved one from any place of a line counted from 1.
-/

namespace Rosette

namespace Location

/-- A place of a text, as a place of the text with `front` before it. -/
def behind (p : Location) (front : List Char) : Location :=
  p.shifted (front.count '\n') (lastLine front).length front.length

theorem start_behind (front : List Char) : start.behind front = start.after front := by
  rw [after_start, behind, shifted]
  simp [start]

/-- The line of a place never falls, so one line feed takes it off the first line for good. -/
theorem line_after_le (p : Location) (cs : List Char) : p.line ≤ (p.after cs).line := by
  induction cs generalizing p with
  | nil => exact Int.le_refl _
  | cons c cs ih =>
    have hstep : p.line ≤ (p.advance c).line := by
      unfold advance
      split <;> dsimp only <;> omega
    rw [after_cons]
    exact Int.le_trans hstep (ih _)

theorem advance_behind {p : Location} (h : 1 ≤ p.line) (front : List Char) (c : Char) :
    (p.behind front).advance c = (p.advance c).behind front := by
  unfold advance behind shifted
  by_cases hc : c = '\n'
  · -- behind the line feed the column is counted anew on both sides
    have hline : p.line + 1 ≠ 1 := by omega
    simp only [if_pos hc, if_neg hline, Location.mk.injEq, true_and]
    omega
  · simp only [if_neg hc, Location.mk.injEq, true_and]
    split <;> omega

theorem after_behind {p : Location} (h : 1 ≤ p.line) (front cs : List Char) :
    (p.behind front).after cs = (p.after cs).behind front := by
  induction cs generalizing p with
  | nil => rfl
  | cons c cs ih =>
    rw [after_cons, after_cons, advance_behind h]
    exact ih (Int.le_trans h (p.line_after_le [c]))

end Location

namespace Token

/-- A token of a text, as a token of the text with `front` before it. -/
def behind (t : Token) (front : List Char) : Token := { t with location := t.location.behind front }

/-- Scanning from a moved place gives the moved tokens. -/
theorem scan_behind {p : Location} (h : 1 ≤ p.line) (front cs : List Char) :
    scan (p.behind front) cs = ((scan p cs).1.map (·.behind front), (scan p cs).2.behind front) := by
  induction cs using scan_induction generalizing p with
  | nil => simp
  | skip c cs hnone ih =>
    rw [scan_skip hnone, scan_skip hnone, Location.advance_behind h]
    exact ih (Int.le_trans h (p.line_after_le [c]))
  | lexeme l cs hread ih =>
    rw [scan_lexeme hread, scan_lexeme hread, Location.after_behind h, ih (Int.le_trans h (p.line_after_le l.span))]
    rfl

/-- **Tokens move with their text**: where a text ends outside its quoted strings and the next one does not go on
with its last word or number, the tokens of both are those of the first without its end, and then those of the
second, with the same kinds and values, at places shifted by the lines, the last line and the length of the
first. -/
theorem tokenize_append {a b : String} (hquote : openQuote none a.toList = none) (hapart : Apart a.toList b.toList) :
    ∃ stop, tokenize a = (tokenize a).dropLast ++ [endAt stop] ∧
      tokenize (a ++ b) = (tokenize a).dropLast ++ (tokenize b).map fun t =>
        ⟨t.kind, t.value, t.location.shifted (a.toList.count '\n') (Location.lastLine a.toList).length a.length⟩ := by
  have hmoved := scan_behind (p := .start) (by decide) a.toList b.toList
  rw [Location.start_behind] at hmoved
  refine ⟨(scan .start a.toList).2, by simp [tokenize, Scanner.run], ?_⟩
  have hsplit := scan_append hquote hapart .start
  rw [hmoved] at hsplit
  simp only [tokenize, Scanner.run, String.toList_append, hsplit, List.dropLast_concat, List.map_append,
    List.append_assoc]
  rfl

/-- The line feed in the string counts for what stands behind it, and only the first line of the second text moves
sideways. -/
theorem tokenize_append_feeds :
    tokenize ("$d 'a\nb' " ++ "h2\nv") =
      [⟨.dollar, "$", ⟨1, 1, 0⟩⟩, ⟨.symbol, "d", ⟨1, 2, 1⟩⟩, ⟨.string, "a\nb", ⟨1, 4, 3⟩⟩] ++
        [⟨.symbol, "h2", ⟨2, 4, 9⟩⟩, ⟨.symbol, "v", ⟨3, 1, 12⟩⟩, ⟨.eof, "", ⟨3, 2, 13⟩⟩] := by
  have hquote : openQuote none "$d 'a\nb' ".toList = none := by decide
  have hapart : Apart "$d 'a\nb' ".toList "h2\nv".toList := by
    rintro x ⟨⟩ y ⟨⟩ ⟨hx, -⟩
    exact absurd hx (by decide)
  obtain ⟨-, -, happend⟩ := tokenize_append hquote hapart
  rw [happend]
  decide +kernel

end Token

end Rosette
