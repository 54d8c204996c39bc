import Mathlib.Data.List.TakeWhile
import Rosette.Text.Digit
import Rosette.Text.LetterCase
import Rosette.Text.Word

/-!
# The classes of characters on ASCII text

The classes of letters and digits cover every script. Words and numbers of the notation are ASCII, and there
each class is the one that core knows: `isDigit_of_ascii`, `lower_of_ascii`. A run of characters of one class
is found by `takeWhile`; what stands behind a text changes no run that ends inside it.
-/

namespace Rosette.Text

/-! ## Runs -/

section
variable {α : Type} {p : α → Bool} {l m : List α}

/-- A run that ends inside a text, or at the end of it before something that does not go on with it, is the
same in front of more text. -/
theorem takeWhile_append_of_head (h : (∀ a ∈ l, p a) → ∀ b ∈ m.head?, ¬ p b) :
    (l ++ m).takeWhile p = l.takeWhile p := by
  rw [List.takeWhile_append]
  split
  · rename_i hl
    have hself := (List.takeWhile_prefix p).eq_of_length hl
    have hm := h (List.takeWhile_eq_self_iff.1 hself)
    have : m.takeWhile p = [] := by cases m <;> simp_all
    rw [this, List.append_nil, hself]
  · rfl

theorem dropWhile_append_of_head (h : (∀ a ∈ l, p a) → ∀ b ∈ m.head?, ¬ p b) :
    (l ++ m).dropWhile p = l.dropWhile p ++ m := by
  have hsplit := List.takeWhile_append_dropWhile (p := p) (l := l ++ m)
  rw [takeWhile_append_of_head h] at hsplit
  have hl : l.takeWhile p ++ (l.dropWhile p ++ m) = l ++ m := by
    rw [← List.append_assoc, List.takeWhile_append_dropWhile]
  exact List.append_cancel_left (hsplit.trans hl.symm)

/-- A text of one class is the run in front of a text that does not go on with it. -/
theorem run_append (hl : ∀ a ∈ l, p a = true) (hm : ∀ b ∈ m.head?, p b = false) :
    (l ++ m).takeWhile p = l ∧ (l ++ m).dropWhile p = m := by
  rw [List.takeWhile_append_of_pos hl, List.dropWhile_append_of_pos hl]
  cases m with
  | nil => simp
  | cons b m => simp [hm b rfl]

/-- A run ends before what is not of its class. -/
theorem head?_dropWhile_eq_false : ∀ a ∈ (l.dropWhile p).head?, p a = false := by
  intro a ha
  have hnot := List.head?_dropWhile_not p l
  rw [Option.mem_def] at ha
  rw [ha] at hnot
  simpa using hnot

theorem head?_cons_of_not {a : α} (h : p a = false) (l : List α) : ∀ b ∈ (a :: l).head?, p b = false := by
  rintro b ⟨⟩
  exact h

end

/-! ## ASCII characters -/

theorem isAlpha_iff_toNat {c : Char} :
    c.isAlpha = true ↔ (65 ≤ c.toNat ∧ c.toNat ≤ 90) ∨ (97 ≤ c.toNat ∧ c.toNat ≤ 122) := by
  have hclass : c.isAlpha = (decide (65 ≤ c.val ∧ c.val ≤ 90) || (decide (97 ≤ c.val) && decide (c.val ≤ 122))) := rfl
  rw [hclass]
  simp [UInt32.le_iff_toNat_le]

theorem isAlphanum_iff {c : Char} : c.isAlphanum = true ↔ c.isAlpha = true ∨ c.isDigit = true := by
  rw [← Bool.or_eq_true]
  rfl

theorem isDigit_iff_toNat {c : Char} : c.isDigit = true ↔ 48 ≤ c.toNat ∧ c.toNat ≤ 57 := by
  simpa using Char.isDigit_iff_toNat (c := c)

theorem isAlphanum_iff_toNat {c : Char} :
    c.isAlphanum = true ↔ (48 ≤ c.toNat ∧ c.toNat ≤ 57) ∨ (65 ≤ c.toNat ∧ c.toNat ≤ 90) ∨
      (97 ≤ c.toNat ∧ c.toNat ≤ 122) := by
  rw [isAlphanum_iff, isAlpha_iff_toNat, isDigit_iff_toNat, or_comm]

theorem ascii_of_isAlphanum {c : Char} (h : c.isAlphanum = true) : c.toNat < 128 := by
  rw [isAlphanum_iff_toNat] at h
  omega

theorem isAlphanum_of_isDigit {c : Char} (h : c.isDigit = true) : c.isAlphanum = true :=
  isAlphanum_iff.2 (.inr h)

theorem isAlphanum_of_isAlpha {c : Char} (h : c.isAlpha = true) : c.isAlphanum = true :=
  isAlphanum_iff.2 (.inl h)

theorem isAlphanum_of_isUpper {c : Char} (h : c.isUpper = true) : c.isAlphanum = true := by
  refine isAlphanum_of_isAlpha ?_
  show (c.isUpper || c.isLower) = true
  rw [h, Bool.true_or]

theorem isAlphanumeric_of_isAlphanum {c : Char} (h : c.isAlphanum = true) : isAlphanumeric c = true := by
  -- the first three ranges are those of the ASCII characters
  obtain ⟨rs, hrs⟩ : ∃ rs, alphanumericRanges = (0x30, 0x39) :: (0x41, 0x5a) :: (0x61, 0x7a) :: rs :=
    ⟨_, rfl⟩
  rw [isAlphanum_iff_toNat] at h
  simp only [isAlphanumeric, hrs, covers, Bool.and_eq_true, Bool.or_eq_true, decide_eq_true_eq]
  omega

theorem digitValue?_of_isDigit {c : Char} (h : c.isDigit = true) : digitValue? c = some (c.toNat - 48) := by
  rw [isDigit_iff_toNat] at h
  simp only [digitValue?, zeros, offsetFromZero]
  rw [if_neg (by omega), if_pos (by omega)]

theorem isDecimal_of_isDigit {c : Char} (h : c.isDigit = true) : isDecimal c = true := by
  simp [isDecimal, digitValue?_of_isDigit h]

/-- A run of ASCII digits that is not empty. -/
structure IsRun (cs : List Char) : Prop where
  ne_nil : cs ≠ []
  digits : ∀ c ∈ cs, c.isDigit = true

theorem IsRun.isAlphanum {cs : List Char} (h : IsRun cs) : ∀ c ∈ cs, c.isAlphanum = true :=
  fun c hc => isAlphanum_of_isDigit (h.digits c hc)

theorem IsRun.decimal {cs : List Char} (h : IsRun cs) : ∀ c ∈ cs, isDecimal c = true :=
  fun c hc => isDecimal_of_isDigit (h.digits c hc)

/-- Among the ASCII characters no others have a digit value. -/
theorem isDigit_of_ascii {c : Char} (h : c.toNat < 128) : isDigit c = c.isDigit := by
  by_cases hc : c.isDigit = true
  · simp [isDigit, isDecimal_of_isDigit hc, hc]
  · obtain ⟨zs, hzs⟩ : ∃ zs, zeros = 0x30 :: 0x660 :: zs := ⟨_, rfl⟩
    obtain ⟨rs, hrs⟩ : ∃ rs, otherDigitRanges = (0xb2, 0xb3) :: rs := ⟨_, rfl⟩
    have hn : ¬ (48 ≤ c.toNat ∧ c.toNat ≤ 57) := by rwa [isDigit_iff_toNat] at hc
    have hz : digitValue? c = none := by
      simp only [digitValue?, hzs, offsetFromZero]
      split
      · rfl
      · rw [if_neg (by omega), if_pos (by omega)]
    have hr : covers otherDigitRanges c.toNat = false := by
      have : ¬ 0xb2 ≤ c.toNat := by omega
      simp [hrs, covers, this]
    simp [isDigit, isDecimal, hz, hr, hc]

/-- The digits behind a letter of ASCII text are those of ASCII. -/
theorem isDigit_of_mem_takeWhile {cs : List Char} (h : ∀ c ∈ cs, c.isAlphanum = true) :
    ∀ c ∈ cs.takeWhile isDigit, c.isDigit = true := by
  intro c hc
  rw [← isDigit_of_ascii (ascii_of_isAlphanum (h c ((List.takeWhile_prefix _).subset hc)))]
  exact List.mem_takeWhile_imp hc

/-! ## Letter case -/

theorem toLower_of_ascii {c : Char} (h : c.toNat < 128) :
    c.toLower = Char.ofNat (if 65 ≤ c.toNat ∧ c.toNat ≤ 90 then c.toNat + 32 else c.toNat) := by
  have all : ∀ n < 128, (Char.ofNat n).toLower = Char.ofNat (if 65 ≤ n ∧ n ≤ 90 then n + 32 else n) := by
    decide
  simpa using all c.toNat h

theorem toLower_of_isDigit {c : Char} (h : c.isDigit = true) : c.toLower = c := by
  rw [isDigit_iff_toNat] at h
  rw [toLower_of_ascii (by omega), if_neg (by omega), Char.ofNat_toNat]

theorem toLower_of_isDecimal {c : Char} (h : isDecimal c = true) : c.toLower = c := by
  unfold Char.toLower
  split
  · rename_i hupper
    have hclass : c.isUpper = true := decide_eq_true hupper
    have halpha : c.isAlpha = true := by
      rw [show c.isAlpha = (c.isUpper || c.isLower) from rfl, hclass, Bool.true_or]
    have hdigit : c.isDigit = true := by
      rw [← isDigit_of_ascii (ascii_of_isAlphanum (isAlphanum_of_isUpper hclass)), isDigit, h, Bool.true_or]
    rw [isAlpha_iff_toNat] at halpha
    rw [isDigit_iff_toNat] at hdigit
    omega
  · rfl

/-- What small letters do to an ASCII character. -/
theorem toLower_ascii {c : Char} (h : c.toNat < 128) :
    c.toLower.toLower = c.toLower ∧ c.toLower.isAlpha = c.isAlpha ∧ c.toLower.isAlphanum = c.isAlphanum := by
  have all : ∀ n < 128, (Char.ofNat n).toLower.toLower = (Char.ofNat n).toLower ∧
      (Char.ofNat n).toLower.isAlpha = (Char.ofNat n).isAlpha ∧
      (Char.ofNat n).toLower.isAlphanum = (Char.ofNat n).isAlphanum := by decide
  have hc := all c.toNat h
  rwa [Char.ofNat_toNat] at hc

theorem lowerChar_of_ascii {c : Char} (h : c.toNat < 128) : lowerChar c = [c.toLower] := by
  obtain ⟨rs, hrs⟩ : ∃ rs, LetterCase.lowerRuns = ⟨0x41, 0x5a, 1, 32⟩ :: ⟨0xc0, 0xd6, 1, 32⟩ :: rs :=
    ⟨_, rfl⟩
  have hi : c ≠ 'İ' := by rintro rfl; simp at h
  rw [lowerChar, if_neg hi, hrs, toLower_of_ascii h]
  simp only [LetterCase.moved, Nat.mod_one, if_true]
  congr 2
  split_ifs <;> omega

theorem lower_of_ascii {cs : List Char} (h : ∀ c ∈ cs, c.toNat < 128) : lower cs = foldAscii cs := by
  have go : ∀ (cs before : List Char), (∀ c ∈ cs, c.toNat < 128) → lowerAfter before cs = foldAscii cs := by
    intro cs
    induction cs with
    | nil => intros; rfl
    | cons c cs ih =>
      intro before h
      have hc := h c List.mem_cons_self
      have hs : c ≠ 'Σ' := by rintro rfl; simp at hc
      simp only [lowerAfter, hs, decide_false, Bool.false_and, Bool.false_eq_true, if_false, lowerChar_of_ascii hc]
      rw [ih _ fun d hd => h d (List.mem_cons_of_mem _ hd)]
      rfl
  exact go cs [] h

end Rosette.Text
