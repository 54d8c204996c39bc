import Mathlib.Data.List.Induction
import Rosette.Numeral
import Rosette.Proofs.Text.Ascii

/-!
# Whole numbers are read back

A number that may be written is read back from its digits (`read_digits`), and every number that is read may
be written (`fits_of_read`): dropping leading zeros and changing the script of the digits make no text longer.
-/

namespace Rosette.Text

theorem decimalValue_concat (cs : List Char) (c : Char) :
    decimalValue (cs ++ [c]) = 10 * decimalValue cs + (digitValue? c).getD 0 := by
  simp [decimalValue]

/-- A number is below the power of ten that its digits reach. -/
theorem decimalValue_lt (cs : List Char) : decimalValue cs < Nat.pow 10 cs.length := by
  induction cs using List.reverseRecOn with
  | nil => simp [decimalValue]
  | append_singleton cs c ih =>
    have hc : (digitValue? c).getD 0 < 10 := by
      cases h : digitValue? c with
      | none => simp
      | some d => exact digitValue?_lt h
    have hpow : Nat.pow 10 (cs.length + 1) = Nat.pow 10 cs.length * 10 := rfl
    rw [decimalValue_concat, List.length_append, List.length_singleton, hpow]
    omega

end Rosette.Text

namespace Rosette.Numeral

open Text

theorem isDigit_of_mem_digits {n : Nat} {c : Char} (h : c ∈ digits n) : c.isDigit = true :=
  Nat.isDigit_of_mem_toDigits (by decide) (by decide) h

theorem digits_ne_nil (n : Nat) : digits n ≠ [] := Nat.toDigits_ne_nil

theorem isRun_digits (n : Nat) : IsRun (digits n) := ⟨digits_ne_nil n, fun _ => isDigit_of_mem_digits⟩

theorem decimalValue_digits (n : Nat) : decimalValue (digits n) = n := by
  have hstep : ∀ (cs : List Char) (k : Nat), (∀ c ∈ cs, c.isDigit = true) →
      cs.foldl (fun n c => 10 * n + (digitValue? c).getD 0) k = Nat.ofDigitChars 10 cs k := by
    intro cs
    induction cs with
    | nil => intros; simp
    | cons c cs ih =>
      intro k h
      rw [List.foldl_cons, Nat.ofDigitChars_cons, ih _ fun d hd => h d (List.mem_cons_of_mem _ hd),
        digitValue?_of_isDigit (h c List.mem_cons_self)]
      rfl
  rw [decimalValue, hstep _ _ fun _ => isDigit_of_mem_digits]
  exact Nat.ofDigitChars_ten_toDigits

/-- A number with few enough digits is read back from them. -/
theorem read_digits {n : Nat} (h : fits n = true) : read (digits n) = .ok n := by
  have hall : ∀ c ∈ digits n, isDecimal c = true := fun c hc => isDecimal_of_isDigit (isDigit_of_mem_digits hc)
  have hle : (digits n).length ≤ digitLimit := by simpa [fits] using h
  rw [read, List.takeWhile_eq_self_iff.2 hall, if_neg (by omega), if_pos (List.all_eq_true.2 hall),
    decimalValue_digits]

/-- What a run of digits must be like to be read. -/
theorem read_eq_ok {cs : List Char} {n : Nat} (h : read cs = .ok n) :
    (∀ c ∈ cs, isDecimal c = true) ∧ cs.length ≤ digitLimit ∧ decimalValue cs = n := by
  unfold read at h
  split at h
  · cases h
  · rename_i hle
    split at h
    · rename_i hall
      have hall' := List.all_eq_true.1 hall
      rw [List.takeWhile_eq_self_iff.2 hall'] at hle
      cases h
      exact ⟨hall', by omega, rfl⟩
    · cases h

/-- The value of a run of digits is not written longer than the run. -/
theorem length_digits_decimalValue_le {cs : List Char} {limit : Nat} (hpos : 0 < limit) (hle : cs.length ≤ limit) :
    (digits (decimalValue cs)).length ≤ limit := by
  have hlt := Nat.lt_of_lt_of_le (decimalValue_lt cs) (Nat.pow_le_pow_right (by decide) hle)
  exact (Nat.length_toDigits_le_iff (by decide) hpos).2 hlt

theorem fits_of_read {cs : List Char} {n : Nat} (h : read cs = .ok n) : fits n = true := by
  obtain ⟨-, hle, rfl⟩ := read_eq_ok h
  exact decide_eq_true (length_digits_decimalValue_le (by decide) hle)

theorem write_natCast {n : Nat} (h : fits n = true) : write n = .ok (digits n) := by
  have hneg : ¬ ((n : Int) < 0) := by omega
  simp [write, h, hneg]

end Rosette.Numeral
