import Rosette.Binary64.Writing
import Rosette.Proofs.Text.Trim

/-!
# The characters of written numbers

A number is written with digits, signs, a point, the mark of an exponent and the letters of `inf` and `nan`, and
with nothing else (`isNumberChar_of_mem_plainText`).
-/

namespace Rosette.Binary64

/-- A character of a written number. -/
def IsNumberChar (c : Char) : Prop := c.isAlphanum = true ∨ c ∈ ['-', '+', '.']

variable {c : Char} {cs ds : List Char}

theorem isNumberChar_of_mem_toDigits {n : Nat} (h : c ∈ Nat.toDigits 10 n) : IsNumberChar c :=
  .inl (Text.isAlphanum_of_isDigit (Nat.isDigit_of_mem_toDigits (by decide) (by decide) h))

theorem isNumberChar_of_mem_zeros {n : Nat} (h : c ∈ List.replicate n '0') : IsNumberChar c := by
  rw [List.eq_of_mem_replicate h]
  exact .inl (by decide)

theorem isNumberChar_of_mem_positional (hds : ∀ c ∈ ds, IsNumberChar c) {point : Int}
    (h : c ∈ positional ds point) : IsNumberChar c := by
  have hzero : IsNumberChar '0' := .inl (by decide)
  have hpoint : IsNumberChar '.' := .inr (by decide)
  unfold positional at h
  split at h
  · simp only [List.mem_cons, List.mem_append, List.cons_append] at h
    rcases h with rfl | rfl | h | h
    · exact hzero
    · exact hpoint
    · exact isNumberChar_of_mem_zeros h
    · exact hds c h
  · split at h
    · simp only [List.mem_cons, List.mem_append, List.not_mem_nil, or_false] at h
      rcases h with (h | h) | rfl | rfl
      · exact hds c h
      · exact isNumberChar_of_mem_zeros h
      · exact hpoint
      · exact hzero
    · rw [List.mem_append, List.mem_cons] at h
      rcases h with h | rfl | h
      · exact hds c (List.mem_of_mem_take h)
      · exact hpoint
      · exact hds c (List.mem_of_mem_drop h)

theorem isNumberChar_of_mem_scientific (hds : ∀ c ∈ ds, IsNumberChar c) {exponent : Int}
    (h : c ∈ scientific ds exponent) : IsNumberChar c := by
  unfold scientific at h
  simp only [List.mem_append, List.mem_cons] at h
  rcases h with h | rfl | rfl | h
  · match ds, hds, h with
    | [d], hds, h => exact hds c h
    | d :: e :: ds, hds, h =>
      rcases List.mem_cons.1 h with rfl | h
      · exact hds c List.mem_cons_self
      · rcases List.mem_cons.1 h with rfl | h
        · exact .inr (by decide)
        · exact hds c (List.mem_cons_of_mem _ h)
  · exact .inl (by decide)
  · split
    · exact .inr (by decide)
    · exact .inr (by decide)
  · split at h
    · rcases List.mem_cons.1 h with rfl | h
      · exact .inl (by decide)
      · exact isNumberChar_of_mem_toDigits h
    · exact isNumberChar_of_mem_toDigits h

theorem isNumberChar_of_mem_magnitudeText {m : Nat} {e : Int} (h : c ∈ magnitudeText m e) : IsNumberChar c := by
  unfold magnitudeText at h
  split at h
  · simp only [List.mem_cons, List.not_mem_nil, or_false] at h
    rcases h with rfl | rfl | rfl
    · exact .inl (by decide)
    · exact .inr (by decide)
    · exact .inl (by decide)
  · dsimp only at h
    split at h
    · exact isNumberChar_of_mem_positional (fun d hd => isNumberChar_of_mem_toDigits hd) h
    · exact isNumberChar_of_mem_scientific (fun d hd => isNumberChar_of_mem_toDigits hd) h

theorem isNumberChar_of_mem_sign {negative : Bool} (h : c ∈ if negative then ['-'] else []) : IsNumberChar c := by
  cases negative with
  | false => cases h
  | true =>
    rw [List.mem_singleton.1 h]
    exact .inr (by decide)

theorem isNumberChar_of_mem_text {x : Binary64} (h : c ∈ x.text) : IsNumberChar c := by
  cases x with
  | finite negative m e =>
    rcases List.mem_append.1 h with h | h
    · exact isNumberChar_of_mem_sign h
    · exact isNumberChar_of_mem_magnitudeText h
  | infinite negative =>
    rcases List.mem_append.1 h with h | h
    · exact isNumberChar_of_mem_sign h
    · exact .inl (List.all_eq_true.1 (by decide) c h)
  | nan =>
    exact .inl (List.all_eq_true.1 (by decide) c h)

theorem isNumberChar_of_mem_fixedText {x : Binary64} (h : c ∈ x.fixedText) : IsNumberChar c := by
  cases x with
  | finite negative m e =>
    unfold fixedText at h
    simp only [List.mem_append, List.mem_cons] at h
    rcases h with (h | h) | rfl | h | h
    · exact isNumberChar_of_mem_sign h
    · exact isNumberChar_of_mem_toDigits h
    · exact .inr (by decide)
    · exact isNumberChar_of_mem_zeros h
    · exact isNumberChar_of_mem_toDigits h
  | infinite negative => exact @isNumberChar_of_mem_text c (.infinite negative) h
  | nan => exact @isNumberChar_of_mem_text c .nan h

/-- A number is written with digits, letters, signs and points. -/
theorem isNumberChar_of_mem_plainText {x : Binary64} (h : c ∈ x.plainText) : IsNumberChar c := by
  unfold plainText at h
  split at h
  · exact isNumberChar_of_mem_fixedText h
  · exact isNumberChar_of_mem_text h

theorem IsNumberChar.isBlank_eq_false (h : IsNumberChar c) : Text.isBlank c = false := by
  rcases h with h | h
  · exact Text.isBlank_of_isAlphanum h
  · have all : ['-', '+', '.'].all (!Text.isBlank ·) = true := by decide
    simpa using List.all_eq_true.1 all c h

theorem trimmed_plainText (x : Binary64) : Text.Trimmed x.plainText :=
  .of_all fun _ hc => (isNumberChar_of_mem_plainText hc).isBlank_eq_false

theorem feed_not_mem_plainText (x : Binary64) : '\n' ∉ x.plainText := by
  intro hmem
  rcases isNumberChar_of_mem_plainText hmem with h | h
  · exact absurd h (by decide)
  · exact absurd h (by decide)

end Rosette.Binary64
