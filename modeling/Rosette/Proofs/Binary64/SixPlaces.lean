import Rosette.Proofs.Binary64.Magnitude
import Rosette.Proofs.Binary64.RoundTrip

/-!
# What six places keep

A number whose shortest text has an exponent is written with six places. That keeps the large ones, which are whole, and
loses the small ones but for the numbers nearest to a whole number of millionths (`IsKept`). The text is a numeral in any
case, and its value is the number exactly if the number is kept.

Main result: `exists_numeral_plainText`.
-/

namespace Rosette

namespace Text

theorem decimalValue_append (cs ds : List Char) :
    decimalValue (cs ++ ds) = decimalValue cs * 10 ^ ds.length + decimalValue ds := by
  induction ds using List.reverseRecOn with
  | nil => simp [decimalValue]
  | append_singleton ds d ih =>
    rw [← List.append_assoc, decimalValue_concat, decimalValue_concat, ih, List.length_append, List.length_singleton,
      Nat.pow_succ, Nat.mul_add, ← Nat.mul_assoc, Nat.mul_comm 10, Nat.mul_assoc, Nat.mul_comm 10 (10 ^ _)]
    omega

end Text

namespace Binary64

variable {s : Bool} {m d k : Nat} {e g : Int}

/-! ## Six places -/

/-- The whole number of millionths nearest to a number. -/
def millionths (m : Nat) (e : Int) : Nat := roundHalfEven ((ratio m e).1 * Nat.pow 10 6) (ratio m e).2

/-- The text of six places is a numeral, and stands for the millionths. -/
theorem isNumeral_fixedText (s : Bool) (m : Nat) (e : Int) :
    ∃ cs whole fraction, (finite s m e).fixedText = (if s then ['-'] else []) ++ cs ∧ IsNumeral cs whole fraction [] ∧
      ∀ t, partsValue t whole fraction [] = ofDecimal t (millionths m e) (-6) := by
  have hplaces : (Numeral.digits (millionths m e % 10 ^ 6)).length ≤ 6 :=
    (Nat.length_toDigits_le_iff (by decide) (by decide)).2 (Nat.mod_lt _ (by decide))
  obtain ⟨whole, hwhole⟩ : ∃ whole, whole = Numeral.digits (millionths m e / 10 ^ 6) := ⟨_, rfl⟩
  obtain ⟨fraction, hfraction⟩ : ∃ fraction, fraction =
      List.replicate (6 - (Numeral.digits (millionths m e % 10 ^ 6)).length) '0' ++
        Numeral.digits (millionths m e % 10 ^ 6) := ⟨_, rfl⟩
  have hlength : fraction.length = 6 := by
    rw [hfraction, List.length_append, List.length_replicate]
    omega
  have hne : fraction ≠ [] := by
    rw [← List.length_pos_iff, hlength]
    decide
  refine ⟨whole ++ '.' :: fraction, whole, fraction, ?_,
    ⟨?_, hwhole ▸ Numeral.isRun_digits _, ?_, ?_, .inl rfl, .inl hne⟩, fun t => ?_⟩
  · rw [hwhole, hfraction]
    exact List.append_assoc _ _ _
  · rw [pointText_of_ne_nil hne, List.append_nil]
  · rw [hwhole]
    intro hhead
    by_cases hzero : millionths m e / 10 ^ 6 = 0
    · rw [hzero]
      rfl
    · exact absurd hhead (Numeral.head?_digits hzero)
  · rw [hfraction]
    intro c hc
    exact (List.mem_append.1 hc).elim isDigit_of_mem_zeros ((Numeral.isRun_digits _).digits c)
  · rw [partsValue_point, Text.decimalValue_append, hlength, hwhole, hfraction, Text.decimalValue_zeros_append,
      Numeral.decimalValue_digits, Numeral.decimalValue_digits, Nat.mul_comm, Nat.div_add_mod]
    rfl

/-! ## Where the shortest text has an exponent -/

theorem exponent_not_mem_digits (n : Nat) : 'e' ∉ Numeral.digits n :=
  fun h => absurd (Numeral.isDigit_of_mem_digits h) (by decide)

theorem exponent_not_mem_positional {ds : List Char} (hds : 'e' ∉ ds) (point : Int) : 'e' ∉ positional ds point := by
  have hzeros : ∀ n, 'e' ∉ List.replicate n '0' := fun n h => absurd (List.eq_of_mem_replicate h) (by decide)
  unfold positional
  split
  · simp [hds, hzeros]
  · split
    · simp [hds, hzeros]
    · simp only [List.mem_append, List.mem_cons, not_or]
      exact ⟨fun h => hds (List.mem_of_mem_take h), by decide, fun h => hds (List.mem_of_mem_drop h)⟩

/-- The shortest text has an exponent where its first digit has a place value below 10^-4 or not below 10^16. -/
theorem exponent_mem_iff (h : (finite false m e).Canonical) (hm : m ≠ 0) :
    ∃ (d : Nat) (g : Int), ofDecimal false d g = finite false m e ∧
      ('e' ∈ magnitudeText m e ↔ ¬ (-4 < g + (Numeral.digits d).length ∧ g + (Numeral.digits d).length ≤ 16)) := by
  have hvalue := ofDecimal_stripZeros hm (ofDecimal_shortest h hm)
  unfold magnitudeText
  rw [if_neg hm]
  dsimp only
  generalize stripZeros (shortest m e).1 (shortest m e).2 = q at hvalue
  obtain ⟨d, g⟩ := q
  refine ⟨d, g, hvalue, ?_⟩
  rw [← Numeral.digits]
  split
  · rename_i hplace
    exact iff_of_false (exponent_not_mem_positional (exponent_not_mem_digits d) _) (not_not.2 (by simpa using hplace))
  · rename_i hplace
    exact iff_of_true (by simp [scientific]) (by simpa using hplace)

/-- Digits and a power of ten, as a quotient, lie between the powers of ten that their length gives. -/
theorem pow_le_of_digits (hd : d ≠ 0) :
    10 ^ ((Numeral.digits d).length - 1) ≤ d ∧ d < 10 ^ (Numeral.digits d).length := by
  have hpos : 0 < (Numeral.digits d).length := List.length_pos_iff.2 (Numeral.digits_ne_nil d)
  constructor
  · by_contra hlt
    by_cases hone : (Numeral.digits d).length = 1
    · rw [hone] at hlt
      omega
    · have := (Nat.length_toDigits_le_iff (b := 10) (by decide) (by omega)).2 (Nat.not_le.1 hlt)
      rw [← Numeral.digits] at this
      omega
  · exact (Nat.length_toDigits_le_iff (by decide) hpos).1 (Nat.le_refl _)

section
variable (h : ofDecimal false d g = finite false m e) (hm : m ≠ 0)
include h hm

/-- Digits that begin behind the fourth place are those of a number below 10^-4, or of the one nearest to 10^-4. -/
theorem isTiny_of_place_le (hplace : g + (Numeral.digits d).length ≤ -4) :
    IsTiny m e ∨ (m = tenthousandth ∧ e = -66) := by
  obtain ⟨⟨hd, -, -⟩, hratio⟩ := (ofDecimal_eq_finite hm).1 h
  refine isTiny_of_ofRatio (Nat.ne_of_gt (Nat.pow_pos (by decide))) hratio ?_
  obtain ⟨n, rfl⟩ : ∃ n : Nat, g = -(n : Int) := ⟨(-g).toNat, by omega⟩
  simp only [Int.toNat_neg_natCast, Int.neg_neg, Int.toNat_natCast, Nat.pow_eq, Nat.pow_zero, Nat.mul_one]
  calc d * 10 ^ 4 < 10 ^ (Numeral.digits d).length * 10 ^ 4 :=
        Nat.mul_lt_mul_of_pos_right (pow_le_of_digits hd).2 (by decide)
    _ = 10 ^ ((Numeral.digits d).length + 4) := (Nat.pow_add _ _ _).symm
    _ ≤ 10 ^ n := Nat.pow_le_pow_right (by decide) (by omega)

/-- Digits that begin at the fourth place, or before, are those of a number that is not below 10^-4. -/
theorem not_isTiny_of_lt_place (hplace : -4 < g + (Numeral.digits d).length) : ¬ IsTiny m e := by
  obtain ⟨⟨hd, -, -⟩, hratio⟩ := (ofDecimal_eq_finite hm).1 h
  refine not_isTiny_of_ofRatio (Nat.ne_of_gt (Nat.pow_pos (by decide))) hratio ?_
  simp only [Nat.pow_eq]
  calc 10 ^ (-g).toNat ≤ 10 ^ ((Numeral.digits d).length - 1 + g.toNat + 4) :=
        Nat.pow_le_pow_right (by decide) (by omega)
    _ = 10 ^ ((Numeral.digits d).length - 1) * 10 ^ g.toNat * 10 ^ 4 := by rw [Nat.pow_add, Nat.pow_add]
    _ ≤ d * 10 ^ g.toNat * 10 ^ 4 := Nat.mul_le_mul_right _ (Nat.mul_le_mul_right _ (pow_le_of_digits hd).1)

/-- Digits that begin before the sixteenth place are those of a whole number. -/
theorem exponent_nonneg_of_lt_place (hplace : 16 < g + (Numeral.digits d).length) : 0 ≤ e := by
  obtain ⟨⟨hd, -, -⟩, hratio⟩ := (ofDecimal_eq_finite hm).1 h
  refine exponent_nonneg_of_ofRatio (Nat.ne_of_gt (Nat.pow_pos (by decide))) hratio ?_
  simp only [Nat.pow_eq]
  calc 10 ^ (-g).toNat * 10 ^ 16 = 10 ^ ((-g).toNat + 16) := (Nat.pow_add _ _ _).symm
    _ ≤ 10 ^ ((Numeral.digits d).length - 1 + g.toNat) := Nat.pow_le_pow_right (by decide) (by omega)
    _ = 10 ^ ((Numeral.digits d).length - 1) * 10 ^ g.toNat := Nat.pow_add _ _ _
    _ ≤ d * 10 ^ g.toNat := Nat.mul_le_mul_right _ (pow_le_of_digits hd).1

end

/-! ## What is read back -/

/-- A number that six places keep: one that is not below 10^-4, or the nearest to a whole number of millionths. -/
def IsKept : Binary64 → Prop
  | finite s m e => ¬ IsTiny m e ∨ ∃ k : Nat, finite s m e = ofDecimal s k (-6)
  | _ => False

/-- The millionths of a whole number are those that it has. -/
theorem ofDecimal_millionths (h : (finite s m e).Canonical) (hm : m ≠ 0) (he : 0 ≤ e) :
    ofDecimal s (millionths m e) (-6) = finite s m e := by
  have hratio : ratio m e = (m * 2 ^ e.toNat, 1) := by
    rw [ratio, show (-e).toNat = 0 by omega]
    rfl
  have hmillionths : millionths m e = 10 ^ 6 * (m * 2 ^ e.toNat) := by
    rw [millionths, hratio, Nat.mul_comm]
    exact (congrArg (roundHalfEven · 1) (Nat.mul_one _).symm).trans (roundHalfEven_mul_right _ Nat.one_pos)
  have hround := ofRatio_ratio h hm
  rw [hratio, ← @ofRatio_mul_left (10 ^ 6) _ _ (by decide) Nat.one_ne_zero] at hround
  refine (ofDecimal_eq_finite hm).2 ⟨⟨?_, by decide, by omega⟩, ?_⟩
  · rw [hmillionths]
    exact Nat.mul_ne_zero (by decide) (Nat.mul_ne_zero hm (Nat.ne_of_gt (Nat.two_pow_pos _)))
  · rw [hmillionths]
    simpa using hround

/-- A number below 10^-4 that is nearest to a whole number of millionths is so to no other. -/
theorem millionths_of_isTiny (h : finite s m e = ofDecimal s k (-6)) (hm : m ≠ 0) (htiny : IsTiny m e) :
    millionths m e = k := by
  have hlt : k < 100 := by
    by_contra hle
    obtain ⟨-, hratio⟩ := (ofDecimal_eq_finite hm).1 h.symm
    refine not_isTiny_of_ofRatio (Nat.ne_of_gt (Nat.pow_pos (by decide))) hratio ?_ htiny
    show 10 ^ 6 ≤ k * 1 * 10 ^ 4
    omega
  -- there are a hundred such numbers
  have hall : ∀ s : Bool, (List.range 100).all (fun k =>
      match ofDecimal s k (-6) with
      | finite _ m e => millionths m e == k
      | _ => true) = true := by
    decide +kernel
  have := List.all_eq_true.1 (hall s) k (List.mem_range.2 hlt)
  rw [← h] at this
  exact eq_of_beq this

/-- A number whose shortest text has an exponent is kept exactly if it has the value of its millionths. -/
theorem ofDecimal_millionths_iff (h : (finite s m e).Canonical) (hexponent : 'e' ∈ magnitudeText m e) :
    ofDecimal s (millionths m e) (-6) = finite s m e ↔ (finite s m e).IsKept := by
  have hm : m ≠ 0 := by
    rintro rfl
    simp [magnitudeText] at hexponent
  obtain ⟨d, g, hdecimal, hplace⟩ := exponent_mem_iff h hm
  by_cases hhigh : 16 < g + (Numeral.digits d).length
  · have hback := ofDecimal_millionths h hm (exponent_nonneg_of_lt_place hdecimal hm hhigh)
    exact iff_of_true hback (.inr ⟨_, hback.symm⟩)
  have hlow : g + (Numeral.digits d).length ≤ -4 := by
    have := hplace.1 hexponent
    omega
  obtain htiny | ⟨rfl, rfl⟩ := isTiny_of_place_le hdecimal hm hlow
  · constructor
    · exact fun hback => .inr ⟨_, hback.symm⟩
    · rintro (hnot | ⟨k, hk⟩)
      · exact absurd htiny hnot
      · rw [millionths_of_isTiny hk hm htiny, hk]
  · -- the number nearest to 10^-4 has the text 0.0001
    exact absurd hexponent (by decide +kernel)

/-- A number whose shortest text has no exponent is kept. -/
theorem isKept_of_not_mem (h : (finite s m e).Canonical) (hexponent : 'e' ∉ magnitudeText m e) :
    (finite s m e).IsKept := by
  by_cases hm : m = 0
  · subst hm
    obtain ⟨-, -, -, hbits⟩ := h
    exact .inr ⟨0, by rw [hbits.resolve_left (by decide)]; rfl⟩
  · obtain ⟨d, g, hdecimal, hplace⟩ := exponent_mem_iff h hm
    have hlow := (not_not.1 (mt hplace.2 hexponent)).1
    exact .inl (not_isTiny_of_lt_place hdecimal hm hlow)

/-- **What is read back from a text without an exponent**: it is a numeral, and its value is the number exactly if six
places keep it. -/
theorem exists_numeral_plainText (h : (finite s m e).Canonical) :
    ∃ cs whole fraction, (finite s m e).plainText = (if s then ['-'] else []) ++ cs ∧ IsNumeral cs whole fraction [] ∧
      (partsValue s whole fraction [] = finite s m e ↔ (finite s m e).IsKept) := by
  have hcontains : (finite s m e).text.contains 'e' = true ↔ 'e' ∈ magnitudeText m e := by
    rw [List.contains_iff_mem, text, List.mem_append]
    cases s <;> simp
  unfold plainText
  split
  · rename_i hexponent
    obtain ⟨cs, whole, fraction, htext, hnumeral, hvalue⟩ := isNumeral_fixedText s m e
    refine ⟨cs, whole, fraction, htext, hnumeral, ?_⟩
    rw [hvalue]
    exact ofDecimal_millionths_iff h (hcontains.1 hexponent)
  · rename_i hexponent
    rw [hcontains] at hexponent
    obtain ⟨whole, fraction, exponent, hnumeral, hvalue⟩ := isNumeral_magnitudeText h
    obtain rfl : exponent = [] := by
      obtain hnil | ⟨sign, ds, rfl, -⟩ := hnumeral.exponent_form
      · exact hnil
      · exact absurd (hnumeral.text ▸ by simp) hexponent
    exact ⟨magnitudeText m e, whole, fraction, rfl, hnumeral,
      iff_of_true (hvalue s) (isKept_of_not_mem h hexponent)⟩

end Binary64

end Rosette
