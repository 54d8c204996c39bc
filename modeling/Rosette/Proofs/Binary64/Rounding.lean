import Mathlib.Algebra.Group.Nat.Defs
import Rosette.Binary64.Writing

/-!
# Rounding is exact where it can be

A quotient is rounded at an exponent that its power of two decides (`Reaches`), so the outcome depends on the quotient
alone and not on the numbers that make it (`ofRatio_mul_left`), and a quotient that is a binary64 number is rounded to
that number (`ofRatio_ratio`). So a zero at the end of the digits may move into the power of ten and back
(`ofDecimal_shift_up`, `ofDecimal_shift_down`).
-/

namespace Rosette.Binary64

/-! ## Powers of two below a quotient -/

/-- The quotient is at least the power `k` of two. -/
def Reaches (num den : Nat) (k : Int) : Prop := den * 2 ^ k.toNat ≤ num * 2 ^ (-k).toNat

instance (num den : Nat) (k : Int) : Decidable (Reaches num den k) := inferInstanceAs (Decidable (_ ≤ _))

/-- The power may be written as a quotient in any way. -/
theorem reaches_iff {num den a b : Nat} {k : Int} (h : (a : Int) - b = k) :
    Reaches num den k ↔ den * 2 ^ a ≤ num * 2 ^ b := by
  obtain ⟨t, ha, hb⟩ : ∃ t, a = k.toNat + t ∧ b = (-k).toNat + t := ⟨a - k.toNat, by omega, by omega⟩
  rw [ha, hb, Nat.pow_add, Nat.pow_add, ← Nat.mul_assoc, ← Nat.mul_assoc, Nat.mul_le_mul_right_iff (Nat.two_pow_pos t)]
  rfl

theorem Reaches.mono {num den : Nat} {j k : Int} (h : Reaches num den k) (hle : j ≤ k) : Reaches num den j := by
  obtain ⟨t, ht⟩ : ∃ t : Nat, k = j + t := ⟨(k - j).toNat, by omega⟩
  rw [reaches_iff (a := j.toNat + t) (b := (-j).toNat) (by omega)] at h
  refine Nat.le_trans (Nat.mul_le_mul_left den (Nat.pow_le_pow_right (by decide) ?_)) h
  omega

theorem reaches_mul_left {c num den : Nat} (hc : 0 < c) {k : Int} :
    Reaches (c * num) (c * den) k ↔ Reaches num den k := by
  unfold Reaches
  rw [Nat.mul_assoc, Nat.mul_assoc, Nat.mul_le_mul_left_iff hc]

section
variable {num den : Nat} (hnum : num ≠ 0) (hden : den ≠ 0)
include hnum hden

/-- The difference of the logarithms is the greatest power that a quotient reaches, or the one above it. -/
theorem reaches_log2 :
    Reaches num den ((num.log2 : Int) - den.log2 - 1) ∧ ¬ Reaches num den ((num.log2 : Int) - den.log2 + 1) := by
  constructor
  · rw [reaches_iff (a := num.log2) (b := den.log2 + 1) (by omega), Nat.mul_comm]
    exact Nat.mul_le_mul (Nat.log2_self_le hnum) (Nat.le_of_lt Nat.lt_log2_self)
  · rw [reaches_iff (a := num.log2 + 1) (b := den.log2) (by omega), Nat.not_le, Nat.mul_comm den]
    exact Nat.mul_lt_mul_of_lt_of_le Nat.lt_log2_self (Nat.log2_self_le hden) (Nat.pos_of_ne_zero hden)

/-- The exponent of a quotient is found from the greatest power of two that it reaches. -/
theorem exponentOf_eq {k : Int} (hk : Reaches num den k) (hnext : ¬ Reaches num den (k + 1)) :
    exponentOf num den = max (k - 52) minExponent := by
  obtain ⟨hbelow, habove⟩ := reaches_log2 hnum hden
  have hlow : (num.log2 : Int) - den.log2 - 1 ≤ k := Int.not_lt.1 fun hlt => hnext (hbelow.mono (by omega))
  have hhigh : k ≤ (num.log2 : Int) - den.log2 := Int.not_lt.1 fun hlt => habove (hk.mono (by omega))
  have hdecide : exponentOf num den = max (if Reaches num den ((num.log2 : Int) - den.log2)
      then (num.log2 : Int) - den.log2 - 52 else (num.log2 : Int) - den.log2 - 53) minExponent := rfl
  rw [hdecide]
  congr 1
  split
  · rename_i hreach
    have : ¬ k < (num.log2 : Int) - den.log2 := fun hlt => hnext (hreach.mono (by omega))
    omega
  · rename_i hreach
    have : k ≠ (num.log2 : Int) - den.log2 := fun heq => hreach (heq ▸ hk)
    omega

theorem exists_reaches : ∃ k, Reaches num den k ∧ ¬ Reaches num den (k + 1) := by
  obtain ⟨hbelow, habove⟩ := reaches_log2 hnum hden
  by_cases h : Reaches num den ((num.log2 : Int) - den.log2)
  · exact ⟨_, h, habove⟩
  · exact ⟨_, hbelow, by rwa [Int.sub_add_cancel]⟩

end

/-! ## Rounding depends on the quotient -/

theorem roundHalfEven_mul_left {c : Nat} (hc : 0 < c) (num den : Nat) :
    roundHalfEven (c * num) (c * den) = roundHalfEven num den := by
  unfold roundHalfEven
  simp only [Nat.mul_div_mul_left _ _ hc, Nat.mul_mod_mul_left, Nat.mul_left_comm 2 c, Nat.mul_lt_mul_left hc]

theorem roundHalfEven_mul_right (m : Nat) {den : Nat} (hden : 0 < den) : roundHalfEven (m * den) den = m := by
  unfold roundHalfEven
  simp only [Nat.mul_div_cancel m hden, Nat.mul_mod_left, Nat.mul_zero, if_pos hden]

theorem ofRatio_mul_left {c num den : Nat} (hc : 0 < c) (hden : den ≠ 0) (s : Bool) :
    ofRatio s (c * num) (c * den) = ofRatio s num den := by
  by_cases hnum : num = 0
  · simp [ofRatio, hnum]
  have hne : c * num ≠ 0 := Nat.mul_ne_zero (Nat.ne_of_gt hc) hnum
  have hexponent : exponentOf (c * num) (c * den) = exponentOf num den := by
    obtain ⟨k, hk, hnext⟩ := exists_reaches hnum hden
    rw [exponentOf_eq hnum hden hk hnext]
    exact exponentOf_eq hne (Nat.mul_ne_zero (Nat.ne_of_gt hc) hden) ((reaches_mul_left hc).2 hk)
      (fun h => hnext ((reaches_mul_left hc).1 h))
  unfold ofRatio
  rw [if_neg hne, if_neg hnum]
  simp only [hexponent, Nat.mul_assoc, roundHalfEven_mul_left hc]

theorem reaches_ratio {m l : Nat} {e : Int} : Reaches (ratio m e).1 (ratio m e).2 (l + e) ↔ 2 ^ l ≤ m := by
  have hpow : 2 ^ (-e).toNat * 2 ^ (l + e.toNat) = 2 ^ l * (2 ^ e.toNat * 2 ^ (-e).toNat) := by
    rw [Nat.pow_add, Nat.mul_comm, Nat.mul_assoc]
  rw [reaches_iff (a := l + e.toNat) (b := (-e).toNat) (by omega), ratio]
  simp only [Nat.pow_eq]
  rw [hpow, Nat.mul_assoc]
  exact Nat.mul_le_mul_right_iff (Nat.mul_pos (Nat.two_pow_pos _) (Nat.two_pow_pos _))

/-- **A quotient that is a binary64 number is rounded to it.** -/
theorem ofRatio_ratio {s : Bool} {m : Nat} {e : Int} (h : (finite s m e).Canonical) (hm : m ≠ 0) :
    ofRatio s (ratio m e).1 (ratio m e).2 = finite s m e := by
  obtain ⟨hlt, hmin, hmax, hbits⟩ := h
  have hnum : (ratio m e).1 ≠ 0 := Nat.mul_ne_zero hm (Nat.ne_of_gt (Nat.two_pow_pos _))
  have hden : (ratio m e).2 ≠ 0 := Nat.ne_of_gt (Nat.two_pow_pos _)
  have hlog : m.log2 < 53 := (Nat.log2_lt hm).2 hlt
  have hexponent : exponentOf (ratio m e).1 (ratio m e).2 = e := by
    rw [exponentOf_eq hnum hden (reaches_ratio.2 (Nat.log2_self_le hm)) fun hnext => ?_]
    · rcases hbits with hbits | rfl
      · have : 52 ≤ m.log2 := (Nat.le_log2 hm).2 hbits
        omega
      · unfold minExponent
        omega
    · rw [show (m.log2 : Int) + e + 1 = ((m.log2 + 1 : Nat) : Int) + e by omega, reaches_ratio] at hnext
      exact Nat.not_lt.2 hnext Nat.lt_log2_self
  have hround : roundHalfEven ((ratio m e).1 * Nat.pow 2 (-e).toNat) ((ratio m e).2 * Nat.pow 2 e.toNat) = m := by
    rw [ratio]
    simp only [Nat.mul_assoc]
    rw [Nat.mul_comm (Nat.pow 2 (-e).toNat)]
    exact roundHalfEven_mul_right m (Nat.mul_pos (Nat.two_pow_pos _) (Nat.two_pow_pos _))
  unfold ofRatio
  rw [if_neg hnum]
  simp only [hexponent, hround]
  rw [if_neg (Nat.ne_of_lt hlt), if_neg (by omega)]

/-! ## How large and how small a finite number is -/

section
variable {s t : Bool} {num den m : Nat} {e : Int}

theorem not_reaches_of_ofRatio (hden : den ≠ 0) (h : ofRatio s num den = finite t m e) {k : Int} (hk : 1100 ≤ k) :
    ¬ Reaches num den k := by
  intro hreach
  by_cases hnum : num = 0
  · subst hnum
    unfold Reaches at hreach
    rw [Nat.zero_mul, Nat.le_zero] at hreach
    exact Nat.mul_ne_zero hden (Nat.ne_of_gt (Nat.two_pow_pos _)) hreach
  obtain ⟨j, hj, hnext⟩ := exists_reaches hnum hden
  have hle : k ≤ j := Int.not_lt.1 fun hlt => hnext (hreach.mono (by omega))
  have hexponent := exponentOf_eq hnum hden hj hnext
  unfold ofRatio at h
  rw [if_neg hnum, hexponent] at h
  dsimp only at h
  unfold minExponent maxExponent at h
  split at h <;> split at h <;> first | omega | cases h

/-- A number that is not rounded to zero is no less than half of the least one. -/
theorem reaches_of_ofRatio (hden : den ≠ 0) (h : ofRatio s num den = finite t m e) (hm : m ≠ 0) :
    Reaches num den (-1076) := by
  by_cases hnum : num = 0
  · unfold ofRatio at h
    rw [if_pos hnum] at h
    cases h
    exact absurd rfl hm
  refine Decidable.byContradiction fun hreach => hm ?_
  obtain ⟨k, hk, hnext⟩ := exists_reaches hnum hden
  have hlt : k < -1076 := Int.not_le.1 fun hle => hreach (hk.mono hle)
  -- the power stays a variable, so that nothing computes it
  obtain ⟨n, hn⟩ : ∃ n : Nat, n = 1074 := ⟨_, rfl⟩
  have hexponent : exponentOf num den = -(n : Int) := by
    rw [exponentOf_eq hnum hden hk hnext]
    unfold minExponent
    omega
  have hsmall : 2 * (num * 2 ^ n) < den := by
    rw [reaches_iff (a := 0) (b := n + 2) (by omega), Nat.pow_succ, Nat.pow_succ, ← Nat.mul_assoc, ← Nat.mul_assoc]
      at hreach
    omega
  have hround : roundHalfEven (num * 2 ^ n) den = 0 := by
    have hdiv : num * 2 ^ n / den = 0 := Nat.div_eq_of_lt (by omega)
    have hmod : num * 2 ^ n % den = num * 2 ^ n := Nat.mod_eq_of_lt (by omega)
    simp only [roundHalfEven, hdiv, hmod, if_pos hsmall]
  unfold ofRatio at h
  rw [if_neg hnum, hexponent] at h
  simp only [Int.neg_neg, Int.toNat_natCast, Int.toNat_neg_natCast, Nat.pow_eq, Nat.pow_zero, Nat.mul_one, hround] at h
  rw [if_neg (by decide : ¬ 0 = 2 ^ 53)] at h
  split at h
  · cases h
  · cases h
    rfl

end

/-! ## Digits and powers of ten -/

section
variable {s : Bool} {d m : Nat} {g e : Int}

/-- When digits and a power of ten are a finite number other than zero, that is decided by their quotient. -/
theorem ofDecimal_eq_finite (hm : m ≠ 0) :
    ofDecimal s d g = finite s m e ↔ (d ≠ 0 ∧ g ≤ 400 ∧ -400 - (d.log2 : Int) ≤ g) ∧
      ofRatio s (d * Nat.pow 10 g.toNat) (Nat.pow 10 (-g).toNat) = finite s m e := by
  have hzero : zero s ≠ finite s m e := by
    unfold zero
    intro h
    cases h
    exact hm rfl
  unfold ofDecimal
  split
  · rename_i hd
    simp [hd, hzero]
  split
  · simp
    omega
  split
  · simp [hzero]
    omega
  · rw [and_iff_right]
    omega

/-- A zero behind the digits and the power of ten below make the same quotient. -/
theorem ofRatio_decimal (s : Bool) (d : Nat) (g : Int) :
    ofRatio s (10 * d * Nat.pow 10 g.toNat) (Nat.pow 10 (-g).toNat) =
      ofRatio s (d * Nat.pow 10 (g + 1).toNat) (Nat.pow 10 (-(g + 1)).toNat) := by
  by_cases hg : 0 ≤ g
  · rw [show (g + 1).toNat = g.toNat + 1 by omega, show (-(g + 1)).toNat = (-g).toNat by omega]
    congr 1
    rw [Nat.pow_eq, Nat.pow_eq, Nat.pow_succ, Nat.mul_right_comm, Nat.mul_comm, Nat.mul_comm 10]
  · rw [show (-g).toNat = (-(g + 1)).toNat + 1 by omega, show g.toNat = 0 by omega,
      show (g + 1).toNat = 0 by omega]
    simp only [Nat.pow_eq, Nat.pow_zero, Nat.mul_one]
    rw [Nat.pow_succ, Nat.mul_comm _ 10]
    exact ofRatio_mul_left (by decide) (Nat.ne_of_gt (Nat.pow_pos (by decide))) s

theorem ofDecimal_shift_up (hm : m ≠ 0) (h : ofDecimal s d g = finite s m e) :
    ofDecimal s (10 * d) (g - 1) = finite s m e := by
  obtain ⟨⟨hd, hhigh, hlow⟩, hratio⟩ := (ofDecimal_eq_finite hm).1 h
  have hlog : d.log2 + 1 ≤ (10 * d).log2 := by
    rw [Nat.le_log2 (by omega), Nat.pow_succ]
    have := Nat.log2_self_le hd
    omega
  refine (ofDecimal_eq_finite hm).2 ⟨⟨by omega, by omega, by omega⟩, ?_⟩
  rw [ofRatio_decimal, Int.sub_add_cancel]
  exact hratio

theorem ofDecimal_shift_down (hm : m ≠ 0) (h : ofDecimal s (10 * d) g = finite s m e) :
    ofDecimal s d (g + 1) = finite s m e := by
  obtain ⟨⟨hd, hhigh, hlow⟩, hratio⟩ := (ofDecimal_eq_finite hm).1 h
  have hden : Nat.pow 10 (-g).toNat ≠ 0 := Nat.ne_of_gt (Nat.pow_pos (by decide))
  have hpow : ∀ n, 2 ^ (3 * n) ≤ 10 ^ n := by
    intro n
    rw [Nat.pow_mul]
    exact Nat.pow_le_pow_left (by decide) n
  -- a power of ten that is cut off would make the number too large or too small
  have hne : g ≠ 400 := by
    intro hg
    refine @not_reaches_of_ofRatio _ _ _ _ _ _ hden hratio (3 * g.toNat : Nat) (by omega) ?_
    rw [reaches_iff (a := 3 * g.toNat) (b := 0) (by omega), show (-g).toNat = 0 by omega, Nat.pow_zero, Nat.mul_one,
      Nat.pow_eq, Nat.pow_zero, Nat.one_mul]
    exact Nat.le_trans (hpow _) (Nat.le_mul_of_pos_left _ (by omega))
  have hnear : -400 - (d.log2 : Int) ≤ g + 1 := by
    refine Decidable.byContradiction fun hfar => ?_
    have hreach := reaches_of_ofRatio hden hratio hm
    obtain ⟨n, hn⟩ : ∃ n : Nat, n = 1076 := ⟨_, rfl⟩
    rw [reaches_iff (a := 0) (b := n) (by omega), show g.toNat = 0 by omega, Nat.pow_zero, Nat.mul_one]
      at hreach
    simp only [Nat.pow_eq, Nat.pow_zero, Nat.mul_one] at hreach
    refine Nat.not_le.2 ?_ hreach
    have hlog := Nat.lt_log2_self (n := d)
    calc 10 * d * 2 ^ n < 2 ^ 4 * 2 ^ (d.log2 + 1) * 2 ^ n :=
          Nat.mul_lt_mul_of_pos_right (by omega) (Nat.two_pow_pos n)
      _ ≤ 2 ^ (3 * (-g).toNat) := by
          rw [← Nat.pow_add, ← Nat.pow_add]
          exact Nat.pow_le_pow_right (by decide) (by omega)
      _ ≤ 10 ^ (-g).toNat := hpow _
  refine (ofDecimal_eq_finite hm).2 ⟨⟨by omega, by omega, hnear⟩, ?_⟩
  rw [← ofRatio_decimal]
  exact hratio

end

end Rosette.Binary64
