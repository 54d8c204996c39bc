/-!
# Splitting text

Text cut at a character. There is one piece more than there are cuts, and joining the pieces gives the text
back.
-/

namespace Rosette.Text

/-- The pieces of a text between the places where `sep` stands. -/
def splitAtChar (sep : Char) : List Char → List (List Char)
  | [] => [[]]
  | c :: cs =>
    if c = sep then [] :: splitAtChar sep cs
    else
      match splitAtChar sep cs with
      | [] => [[c]]
      | p :: ps => (c :: p) :: ps

theorem splitAtChar_ne_nil (sep : Char) (cs : List Char) : splitAtChar sep cs ≠ [] := by
  cases cs with
  | nil => simp [splitAtChar]
  | cons c cs =>
    simp only [splitAtChar]
    split
    · simp
    · split <;> simp

theorem splitAtChar_cons_of_ne {sep c : Char} (h : c ≠ sep) {cs p : List Char} {ps : List (List Char)}
    (hs : splitAtChar sep cs = p :: ps) : splitAtChar sep (c :: cs) = (c :: p) :: ps := by
  simp [splitAtChar, h, hs]

/-- The pieces with `sep` between them are the text. -/
theorem intercalate_splitAtChar (sep : Char) (cs : List Char) :
    [sep].intercalate (splitAtChar sep cs) = cs := by
  induction cs with
  | nil => simp [splitAtChar]
  | cons c cs ih =>
    obtain ⟨p, ps, hs⟩ := List.exists_cons_of_ne_nil (splitAtChar_ne_nil sep cs)
    by_cases h : c = sep
    · subst h
      rw [show splitAtChar c (c :: cs) = [] :: splitAtChar c cs by simp [splitAtChar], hs]
      rw [hs] at ih
      simp [← ih]
    · rw [splitAtChar_cons_of_ne h hs]
      rw [hs] at ih
      cases ps <;> simp_all

/-- No piece holds the character at which the text was cut. -/
theorem not_mem_of_mem_splitAtChar {sep : Char} {cs p : List Char} (h : p ∈ splitAtChar sep cs) :
    sep ∉ p := by
  induction cs generalizing p with
  | nil => simp_all [splitAtChar]
  | cons c cs ih =>
    obtain ⟨q, qs, hs⟩ := List.exists_cons_of_ne_nil (splitAtChar_ne_nil sep cs)
    by_cases hc : c = sep
    · simp only [splitAtChar, if_pos hc, List.mem_cons] at h
      rcases h with rfl | h
      · simp
      · exact ih h
    · rw [splitAtChar_cons_of_ne hc hs, List.mem_cons] at h
      rw [hs] at ih
      rcases h with rfl | h
      · simp only [List.mem_cons, not_or]
        exact ⟨Ne.symm hc, ih (by simp)⟩
      · exact ih (List.mem_cons_of_mem _ h)

end Rosette.Text
