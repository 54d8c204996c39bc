import Rosette.Proofs.Binary64.Rounding

/-!
# Rounding keeps magnitudes

What a quotient is rounded to has the one form of its kind (`canonical_ofRatio`) and lies on the same side of 10^-4 as
the quotient, unless it is the number nearest to 10^-4 itself (`isTiny_of_ofRatio`, `not_isTiny_of_ofRatio`). A quotient
that is not below 10^16 is rounded to a whole number.
-/

namespace Rosette.Binary64

variable {s t : Bool} {num den m a b l n : Nat} {e k : Int}

/-! ## Rounding a quotient to a natural number -/

/-- The rounded number is at most a half away. -/
theorem roundHalfEven_near (num : Nat) (hden : 0 < den) :
    2 * num ≤ den * (2 * roundHalfEven num den + 1) ∧ den * (2 * roundHalfEven num den) ≤ 2 * num + den := by
  obtain ⟨q, r, hnum, hr⟩ : ∃ q r, num = den * q + r ∧ r < den :=
    ⟨num / den, num % den, (Nat.div_add_mod num den).symm, Nat.mod_lt num hden⟩
  have hround : (roundHalfEven num den = q ∧ 2 * r ≤ den) ∨ (roundHalfEven num den = q + 1 ∧ den ≤ 2 * r) := by
    have hdiv : num / den = q := by rw [hnum, Nat.mul_add_div hden, Nat.div_eq_of_lt hr, Nat.add_zero]
    have hmod : num % den = r := by rw [hnum, Nat.mul_add_mod_self_left, Nat.mod_eq_of_lt hr]
    unfold roundHalfEven
    rw [hdiv, hmod]
    dsimp only
    split
    · exact .inl ⟨rfl, by omega⟩
    · split
      · exact .inr ⟨rfl, by omega⟩
      · split
        · exact .inl ⟨rfl, by omega⟩
        · exact .inr ⟨rfl, by omega⟩
  obtain ⟨h, hhalf⟩ | ⟨h, hhalf⟩ := hround
  · rw [h, hnum, Nat.mul_add den, Nat.mul_left_comm den]
    omega
  · rw [h, hnum, Nat.mul_add den, Nat.mul_left_comm den, Nat.mul_add den]
    omega

theorem roundHalfEven_le (h : 2 * num < den * (2 * b + 1)) : roundHalfEven num den ≤ b := by
  have hden : 0 < den := Nat.pos_of_ne_zero (by rintro rfl; simp at h)
  have hnear := (roundHalfEven_near num hden).2
  have hlt : den * (2 * roundHalfEven num den) < den * (2 * b + 2) := by
    rw [Nat.mul_add] at h ⊢
    omega
  have := Nat.lt_of_mul_lt_mul_left hlt
  omega

theorem le_roundHalfEven (hden : 0 < den) (h : den * (2 * a) < 2 * num + den) : a ≤ roundHalfEven num den := by
  have hnear := (roundHalfEven_near num hden).1
  have hlt : den * (2 * a) < den * (2 * roundHalfEven num den + 2) := by
    rw [Nat.mul_add] at hnear ⊢
    omega
  have := Nat.lt_of_mul_lt_mul_left hlt
  omega

/-! ## What a quotient is rounded to -/

/-- The power may be split off the exponent of a number. -/
theorem reaches_add {l : Nat} {e : Int} :
    Reaches num den (l + e) ↔ den * 2 ^ e.toNat * 2 ^ l ≤ num * 2 ^ (-e).toNat := by
  rw [reaches_iff (a := e.toNat + l) (b := (-e).toNat) (by omega), Nat.pow_add, Nat.mul_assoc]

/-- How a quotient other than zero is rounded: to `r` at the exponent that its greatest power of two decides, which may
need one bit more. -/
theorem exists_rounded (hnum : num ≠ 0) (hden : den ≠ 0) (h : ofRatio s num den = finite t m e) :
    ∃ (k E : Int) (r : Nat), Reaches num den k ∧ ¬ Reaches num den (k + 1) ∧ E = max (k - 52) minExponent ∧
      r = roundHalfEven (num * 2 ^ (-E).toNat) (den * 2 ^ E.toNat) ∧ (r ≤ 2 ^ 53 ∧ (E = k - 52 → 2 ^ 52 ≤ r)) ∧
      (t = s ∧ e ≤ maxExponent) ∧ ((r ≠ 2 ^ 53 ∧ m = r ∧ e = E) ∨ (r = 2 ^ 53 ∧ m = 2 ^ 52 ∧ e = E + 1)) := by
  obtain ⟨k, hk, hnext⟩ := exists_reaches hnum hden
  obtain ⟨E, hE⟩ : ∃ E, E = max (k - 52) minExponent := ⟨_, rfl⟩
  have hD : 0 < den * 2 ^ E.toNat := Nat.mul_pos (Nat.pos_of_ne_zero hden) (Nat.two_pow_pos _)
  refine ⟨k, E, _, hk, hnext, hE, rfl, ⟨?_, fun hlow => ?_⟩, ?_⟩
  · have hreach : ¬ Reaches num den ((53 : Nat) + E) := fun h => hnext (h.mono (by omega))
    rw [reaches_add, Nat.not_le] at hreach
    exact roundHalfEven_le (by omega)
  · have hreach : Reaches num den ((52 : Nat) + E) := hk.mono (by omega)
    rw [reaches_add] at hreach
    exact le_roundHalfEven hD (by omega)
  · unfold ofRatio at h
    rw [if_neg hnum, exponentOf_eq hnum hden hk hnext, ← hE] at h
    simp only [Nat.pow_eq] at h
    split at h <;> split at h <;> cases h
    · rename_i hr hmax
      exact ⟨⟨rfl, Int.not_lt.1 hmax⟩, .inr ⟨hr, rfl, rfl⟩⟩
    · rename_i hr hmax
      exact ⟨⟨rfl, Int.not_lt.1 hmax⟩, .inl ⟨hr, rfl, rfl⟩⟩

/-- **What a quotient is rounded to has the one form of its number.** -/
theorem canonical_ofRatio (hden : den ≠ 0) (h : ofRatio s num den = finite t m e) :
    t = s ∧ (finite t m e).Canonical := by
  by_cases hnum : num = 0
  · rw [ofRatio, if_pos hnum, zero] at h
    cases h
    exact ⟨rfl, by decide, by decide, by decide, .inr rfl⟩
  obtain ⟨k, E, r, -, -, hE, -, ⟨hle, hge⟩, ⟨rfl, hmax⟩, hform⟩ := exists_rounded hnum hden h
  have hmin : minExponent ≤ E := by omega
  refine ⟨rfl, ?_⟩
  obtain ⟨hne, rfl, rfl⟩ | ⟨-, rfl, rfl⟩ := hform
  · refine ⟨Nat.lt_of_le_of_ne hle hne, hmin, hmax, ?_⟩
    by_cases hlow : e = k - 52
    · exact .inl (hge hlow)
    · exact .inr (by omega)
  · exact ⟨by decide, by omega, hmax, .inl (Nat.le_refl _)⟩

theorem canonical_ofDecimal {d : Nat} {g : Int} (h : ofDecimal s d g = finite t m e) :
    t = s ∧ (finite t m e).Canonical := by
  have hzero : zero s = finite t m e → t = s ∧ (finite t m e).Canonical := by
    rintro ⟨⟩
    exact ⟨rfl, by decide, by decide, by decide, .inr rfl⟩
  unfold ofDecimal at h
  split at h
  · exact hzero h
  split at h
  · cases h
  split at h
  · exact hzero h
  · exact canonical_ofRatio (Nat.ne_of_gt (Nat.pow_pos (by decide))) h

/-- A quotient that is not below 10^16 is rounded to a whole number. -/
theorem exponent_nonneg_of_ofRatio (hden : den ≠ 0) (h : ofRatio s num den = finite t m e) (hle : den * 10 ^ 16 ≤ num) :
    0 ≤ e := by
  obtain ⟨k, E, r, -, hnext, hE, -, -, -, hform⟩ := exists_rounded (by rintro rfl; omega) hden h
  have hk : 53 ≤ k := by
    refine Int.not_lt.1 fun hlt => hnext (Reaches.mono (k := 53) ?_ (by omega))
    rw [reaches_iff (a := 53) (b := 0) (by omega), Nat.pow_zero, Nat.mul_one]
    exact Nat.le_trans (Nat.mul_le_mul_left den (by decide)) hle
  omega

/-! ## Numbers below 10^-4 -/

/-- The number is below 10^-4 and above -10^-4. -/
def IsTiny (m : Nat) (e : Int) : Prop := (ratio m e).1 * 10 ^ 4 < (ratio m e).2

theorem isTiny_zero (e : Int) : IsTiny 0 e := by
  simp only [IsTiny, ratio, Nat.zero_mul]
  exact Nat.two_pow_pos _

theorem isTiny_iff {n : Nat} (h : e = -(n : Int)) : IsTiny m e ↔ m * 10 ^ 4 < 2 ^ n := by
  unfold IsTiny ratio
  rw [h, Int.neg_neg, Int.toNat_natCast, Int.toNat_neg_natCast]
  simp only [Nat.pow_eq, Nat.pow_zero, Nat.mul_one]

theorem not_isTiny_of_le (hm : 2 ^ 52 ≤ m) (he : -65 ≤ e) : ¬ IsTiny m e := by
  have hnum : m ≤ m * 2 ^ e.toNat := Nat.le_mul_of_pos_right m (Nat.two_pow_pos _)
  have hden : 2 ^ (-e).toNat ≤ 2 ^ 65 := Nat.pow_le_pow_right (by decide) (by omega)
  unfold IsTiny ratio
  simp only [Nat.pow_eq]
  generalize m * 2 ^ e.toNat = num at hnum
  generalize 2 ^ (-e).toNat = den at hden
  omega

/-- The significand of the number nearest to 10^-4, which is a little above it. -/
def tenthousandth : Nat := 7378697629483821

/-- A quotient below 10^-4 is rounded to a number below, or to the number nearest to 10^-4. -/
theorem isTiny_of_ofRatio (hden : den ≠ 0) (h : ofRatio s num den = finite t m e) (hlt : num * 10 ^ 4 < den) :
    IsTiny m e ∨ (m = tenthousandth ∧ e = -66) := by
  by_cases hnum : num = 0
  · rw [ofRatio, if_pos hnum, zero] at h
    cases h
    exact .inl (isTiny_zero _)
  obtain ⟨k, E, r, hk, -, hE, hr, ⟨hle, -⟩, -, hform⟩ := exists_rounded hnum hden h
  have hbelow : k < -13 := by
    refine Int.not_le.1 fun hk13 => ?_
    have hreach := hk.mono hk13
    rw [reaches_iff (a := 0) (b := 13) (by omega)] at hreach
    omega
  unfold minExponent at hE
  by_cases hk14 : k = -14
  · -- the power of two just below 10^-4
    obtain rfl : E = -66 := by omega
    have hround : r ≤ tenthousandth := by
      rw [hr]
      unfold tenthousandth
      exact roundHalfEven_le (by simp; omega)
    unfold tenthousandth at hround ⊢
    rw [isTiny_iff (n := 66)]
    · omega
    · omega
  · obtain ⟨n, rfl⟩ : ∃ n : Nat, E = -(n : Int) := ⟨(-E).toNat, by omega⟩
    have hpow : 2 ^ 67 ≤ 2 ^ n := Nat.pow_le_pow_right (by decide) (by omega)
    have hpow' : 2 ^ 66 ≤ 2 ^ (n - 1) := Nat.pow_le_pow_right (by decide) (by omega)
    left
    obtain ⟨-, rfl, rfl⟩ | ⟨-, rfl, rfl⟩ := hform
    · rw [isTiny_iff rfl]
      calc m * 10 ^ 4 ≤ 2 ^ 53 * 10 ^ 4 := Nat.mul_le_mul_right _ hle
        _ < 2 ^ 67 := by decide
        _ ≤ 2 ^ n := hpow
    · rw [isTiny_iff (n := n - 1) (by omega)]
      exact Nat.lt_of_lt_of_le (by decide) hpow'

/-- A quotient that is not below 10^-4 is rounded to a number that is not. -/
theorem not_isTiny_of_ofRatio (hden : den ≠ 0) (h : ofRatio s num den = finite t m e) (hle : den ≤ num * 10 ^ 4) :
    ¬ IsTiny m e := by
  obtain ⟨k, E, r, -, hnext, hE, hr, ⟨-, hge⟩, -, hform⟩ := exists_rounded (by rintro rfl; omega) hden h
  have habove : -14 ≤ k := by
    refine Int.not_lt.1 fun hk14 => hnext (Reaches.mono (k := -14) ?_ (by omega))
    rw [reaches_iff (a := 0) (b := 14) (by omega)]
    omega
  unfold minExponent at hE
  by_cases hk14 : k = -14
  · obtain rfl : E = -66 := by omega
    have hround : tenthousandth ≤ r := by
      rw [hr]
      unfold tenthousandth
      exact le_roundHalfEven (by simp; omega) (by simp; omega)
    unfold tenthousandth at hround
    obtain ⟨-, rfl, rfl⟩ | ⟨-, rfl, rfl⟩ := hform
    · refine fun htiny => ?_
      have := (isTiny_iff (n := 66) rfl).1 htiny
      omega
    · exact not_isTiny_of_le (Nat.le_refl _) (by omega)
  · have hbits := hge (by omega)
    obtain ⟨-, rfl, rfl⟩ | ⟨-, rfl, rfl⟩ := hform
    · exact not_isTiny_of_le hbits (by omega)
    · exact not_isTiny_of_le (Nat.le_refl _) (by omega)

end Rosette.Binary64
