import Mathlib.Data.List.Induction
import Mathlib.Data.List.TakeWhile
import Rosette.Location

/-!
# Places counted out

A place moves over a text character by character. Where it comes to is said by the whole text: its line by the number
of line feeds, its column by the characters behind the last of them, its offset by the length (`after_start`).
-/

namespace Rosette.Location

variable {a b cs source : List Char} {p : Location}

/-- The characters of a text behind its last line feed. -/
def lastLine (cs : List Char) : List Char := (cs.reverse.takeWhile (· != '\n')).reverse

theorem lastLine_concat (cs : List Char) (c : Char) :
    lastLine (cs ++ [c]) = if c = '\n' then [] else lastLine cs ++ [c] := by
  unfold lastLine
  rw [List.reverse_concat, List.takeWhile_cons]
  by_cases hc : c = '\n' <;> simp [hc]

/-- Over a text in one line the column moves with the offset. -/
theorem after_of_not_mem (h : '\n' ∉ cs) : p.after cs = ⟨p.line, p.column + cs.length, p.offset + cs.length⟩ := by
  induction cs generalizing p with
  | nil => simp [after_nil]
  | cons c cs ih =>
    rw [List.mem_cons, not_or] at h
    rw [after_cons, ih h.2, advance, if_neg (Ne.symm h.1)]
    simp only [List.length_cons, Location.mk.injEq, true_and]
    omega

/-- The place behind a text. -/
theorem after_start (cs : List Char) :
    start.after cs = ⟨1 + cs.count '\n', 1 + (lastLine cs).length, cs.length⟩ := by
  induction cs using List.reverseRecOn with
  | nil => rfl
  | append_singleton cs c ih =>
    rw [after_append, ih, after_cons, after_nil, advance, lastLine_concat, List.count_append]
    by_cases hc : c = '\n'
    · subst hc
      simp only [if_true, List.count_singleton_self, List.length_append, List.length_singleton, List.length_nil,
        Location.mk.injEq]
      omega
    · have hcount : [c].count '\n' = 0 := List.count_eq_zero.2 (by simpa using Ne.symm hc)
      simp only [if_neg hc, hcount, List.length_append, List.length_singleton, Nat.add_zero, Location.mk.injEq, true_and]
      omega

/-- A place of a text: its offset is one of the text, and its line and its column are counted out from there. -/
structure IsPlaceIn (p : Location) (source : List Char) : Prop where
  nonneg : 0 ≤ p.offset
  le_length : p.offset ≤ source.length
  line : p.line = 1 + (source.take p.offset.toNat).count '\n'
  column : p.column = 1 + (lastLine (source.take p.offset.toNat)).length

theorem isPlaceIn_after (a b : List Char) : (start.after a).IsPlaceIn (a ++ b) := by
  have htake : (a ++ b).take (start.after a).offset.toNat = a := by
    rw [after_start]
    exact List.take_left
  constructor
  · simp [after_start]
  · simp only [after_start, List.length_append]
    omega
  · rw [htake, after_start]
  · rw [htake, after_start]

/-- What stands at the place behind a text is what follows the text. -/
theorem drop_offset_after (a b : List Char) : (a ++ b).drop (start.after a).offset.toNat = b := by
  rw [after_start]
  exact List.drop_left

end Rosette.Location
