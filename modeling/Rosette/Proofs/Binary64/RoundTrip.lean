import Rosette.Proofs.Binary64.DecimalNumeral
import Rosette.Proofs.Binary64.Rounding
import Rosette.Proofs.Numeral

/-!
# Numbers are read back from their texts

Main result: `ofNumeral?_text`, a finite number is read back from its text. The digits of the text are the number by
construction, since each candidate is read back before it is taken and the last one is exact; what is left to show is
that moving zeros and laying out the digits keep the value.
-/

namespace Rosette

/-! ## Zeros -/

namespace Text

theorem decimalValue_zero_cons (cs : List Char) : decimalValue ('0' :: cs) = decimalValue cs := rfl

theorem decimalValue_zeros_append (n : Nat) (cs : List Char) :
    decimalValue (List.replicate n '0' ++ cs) = decimalValue cs := by
  induction n with
  | zero => rfl
  | succ n ih => rw [List.replicate_succ, List.cons_append, decimalValue_zero_cons, ih]

theorem decimalValue_append_zeros (cs : List Char) (n : Nat) :
    decimalValue (cs ++ List.replicate n '0') = decimalValue cs * 10 ^ n := by
  induction n with
  | zero => simp
  | succ n ih =>
    rw [List.replicate_succ', ← List.append_assoc, decimalValue_concat, ih, Nat.pow_succ]
    have hzero : (digitValue? '0').getD 0 = 0 := rfl
    rw [hzero, Nat.add_zero, Nat.mul_comm 10, Nat.mul_assoc]

end Text

/-- The digits of a number other than zero do not begin with zero. -/
theorem Numeral.head?_digits {n : Nat} (hn : n ≠ 0) : (digits n).head? ≠ some '0' := by
  intro hhead
  obtain ⟨c, ds, hds⟩ := List.exists_cons_of_ne_nil (digits_ne_nil n)
  rw [hds, List.head?_cons, Option.some.injEq] at hhead
  subst hhead
  have hvalue := decimalValue_digits n
  rw [hds, Text.decimalValue_zero_cons] at hvalue
  have hne : ds ≠ [] := by
    rintro rfl
    exact hn hvalue.symm
  have hlt := Text.decimalValue_lt ds
  rw [hvalue] at hlt
  have hle : (digits n).length ≤ ds.length :=
    (Nat.length_toDigits_le_iff (by decide) (List.length_pos_iff.2 hne)).2 hlt
  rw [hds, List.length_cons] at hle
  omega

namespace Binary64

/-! ## The digits of a number -/

/-- The sign has no part in rounding. -/
theorem ofRatio_cases (num den : Nat) :
    (∃ m e, ∀ s, ofRatio s num den = finite s m e) ∨ ∀ s, ofRatio s num den = infinite s := by
  by_cases hnum : num = 0
  · exact .inl ⟨0, minExponent, fun s => by rw [ofRatio, if_pos hnum, zero]⟩
  obtain ⟨q, hq⟩ : ∃ q : Nat × Int, ∀ s, ofRatio s num den =
      if maxExponent < q.2 then infinite s else finite s q.1 q.2 := by
    let e := exponentOf num den
    let m := roundHalfEven (num * Nat.pow 2 (-e).toNat) (den * Nat.pow 2 e.toNat)
    exact ⟨if m = Nat.pow 2 53 then (Nat.pow 2 52, e + 1) else (m, e), fun s => by rw [ofRatio, if_neg hnum]⟩
  by_cases hmax : maxExponent < q.2
  · exact .inr fun s => by rw [hq, if_pos hmax]
  · exact .inl ⟨q.1, q.2, fun s => by rw [hq, if_neg hmax]⟩

theorem ofRatio_sign {num den m : Nat} {e : Int} (h : ofRatio false num den = finite false m e) (s : Bool) :
    ofRatio s num den = finite s m e := by
  obtain ⟨m', e', hfinite⟩ | hinfinite := ofRatio_cases num den
  · rw [hfinite] at h
    cases h
    exact hfinite s
  · rw [hinfinite] at h
    cases h

theorem ofDecimal_sign {d m : Nat} {g e : Int} (hm : m ≠ 0) (h : ofDecimal false d g = finite false m e) (s : Bool) :
    ofDecimal s d g = finite s m e := by
  obtain ⟨hbounds, hratio⟩ := (ofDecimal_eq_finite hm).1 h
  exact (ofDecimal_eq_finite hm).2 ⟨hbounds, ofRatio_sign hratio s⟩

theorem ofDecimal_onGrid {m : Nat} {e g : Int} {d : Nat × Int} (h : onGrid? m e g = some d) :
    ofDecimal false d.1 d.2 = finite false m e := by
  have hcandidates : ∀ a b : Nat, (if ofDecimal false a g == finite false m e then some (a, g)
      else if ofDecimal false b g == finite false m e then some (b, g) else none) = some d →
      ofDecimal false d.1 d.2 = finite false m e := by
    intro a b hab
    split at hab
    · rename_i hback
      cases hab
      exact eq_of_beq hback
    · split at hab
      · rename_i hback
        cases hab
        exact eq_of_beq hback
      · cases hab
  exact hcandidates _ _ h

section
variable {m : Nat} {e : Int} (h : (finite false m e).Canonical) (hm : m ≠ 0)
include h hm

theorem ofDecimal_exactDecimal :
    ofDecimal false (exactDecimal m e).1 (exactDecimal m e).2 = finite false m e := by
  have hpos : 0 < m * 2 ^ e.toNat := Nat.mul_pos (Nat.pos_of_ne_zero hm) (Nat.two_pow_pos _)
  have hdigits : 2 ^ (2 * (-e).toNat) ≤ m * 2 ^ e.toNat * 5 ^ (-e).toNat := by
    rw [Nat.pow_mul]
    exact Nat.le_trans (Nat.pow_le_pow_left (by decide) _) (Nat.le_mul_of_pos_left _ hpos)
  have hne : m * 2 ^ e.toNat * 5 ^ (-e).toNat ≠ 0 := Nat.mul_ne_zero (Nat.ne_of_gt hpos) (Nat.ne_of_gt (Nat.pow_pos (by decide)))
  have hlog := (Nat.le_log2 hne).2 hdigits
  have hratio := ofRatio_ratio h hm
  refine (ofDecimal_eq_finite hm).2 ⟨⟨hne, ?_, ?_⟩, ?_⟩
  · unfold exactDecimal
    dsimp only
    omega
  · unfold exactDecimal
    simp only [Nat.pow_eq]
    omega
  · -- the digits are the significand times a power of five, which the power of ten takes back
    have hden : (ratio m e).2 ≠ 0 := Nat.ne_of_gt (Nat.two_pow_pos _)
    have hten : 10 ^ (-e).toNat = 5 ^ (-e).toNat * 2 ^ (-e).toNat := Nat.mul_pow 5 2 _
    rw [← hratio, ← @ofRatio_mul_left (5 ^ (-e).toNat) _ _ (Nat.pow_pos (by decide)) hden]
    simp only [exactDecimal, ratio, Nat.pow_eq]
    rw [show (min e 0).toNat = 0 by omega, show (-min e 0).toNat = (-e).toNat by omega, hten, Nat.pow_zero, Nat.mul_one,
      Nat.mul_comm (5 ^ (-e).toNat) (m * 2 ^ e.toNat)]

theorem ofDecimal_shortest : ofDecimal false (shortest m e).1 (shortest m e).2 = finite false m e := by
  unfold shortest
  dsimp only
  split
  · rename_i d hd
    obtain ⟨n, -, hgrid⟩ := List.exists_of_findSome?_eq_some hd
    exact ofDecimal_onGrid hgrid
  · exact ofDecimal_exactDecimal h hm

end

theorem ofDecimal_stripZeros {s : Bool} {d m : Nat} {g e : Int} (hm : m ≠ 0) (h : ofDecimal s d g = finite s m e) :
    ofDecimal s (stripZeros d g).1 (stripZeros d g).2 = finite s m e := by
  fun_induction stripZeros d g with
  | case1 d g hd ih =>
    refine ih (ofDecimal_shift_down hm ?_)
    rwa [show 10 * (d / 10) = d by omega]
  | case2 d g hd => exact h

theorem ofDecimal_mul_pow {s : Bool} {d m : Nat} {g e : Int} (hm : m ≠ 0) (h : ofDecimal s d g = finite s m e)
    (n : Nat) : ofDecimal s (d * 10 ^ n) (g - n) = finite s m e := by
  induction n with
  | zero => simpa using h
  | succ n ih =>
    have hstep := ofDecimal_shift_up hm ih
    rwa [show 10 * (d * 10 ^ n) = d * 10 ^ (n + 1) by rw [Nat.pow_succ, Nat.mul_comm 10, Nat.mul_assoc],
      show g - n - 1 = g - (n + 1 : Nat) by omega] at hstep

/-! ## The parts of a numeral -/

/-- The point and the digits behind it; no digits need no point. -/
def pointText (fraction : List Char) : List Char := if fraction.isEmpty then [] else '.' :: fraction

theorem pointText_of_ne_nil {fraction : List Char} (h : fraction ≠ []) : pointText fraction = '.' :: fraction := by
  rw [pointText, if_neg (by simpa using h)]

/-- A text is no exponent, or the mark of one with a sign and digits. -/
def IsExponent (cs : List Char) : Prop :=
  cs = [] ∨ ∃ sign ds, cs = 'e' :: sign :: ds ∧ (sign = '+' ∨ sign = '-') ∧ Text.IsRun ds

/-- A text is whole digits, the digits behind a point and an exponent, and has a point or an exponent. No whole digits
but a zero alone begin with zero. -/
structure IsNumeral (cs whole fraction exponent : List Char) : Prop where
  text : cs = whole ++ pointText fraction ++ exponent
  whole_run : Text.IsRun whole
  whole_head : whole.head? = some '0' → whole = ['0']
  fraction_digits : ∀ c ∈ fraction, c.isDigit = true
  exponent_form : IsExponent exponent
  marked : fraction ≠ [] ∨ exponent ≠ []

/-- The value of the parts of a numeral. -/
def partsValue (s : Bool) (whole fraction exponent : List Char) : Binary64 :=
  ofDecimal s (Text.decimalValue (whole ++ fraction)) (exponentValue (exponent.drop 1) - fraction.length)

theorem splitSign_of_isDigit {c : Char} (h : c.isDigit = true) (cs : List Char) :
    splitSign (c :: cs) = ([], c :: cs) := by
  refine splitSign_append (.inl rfl) ?_
  rintro _ ⟨⟩
  exact not_sign_of_isDecimal (Text.isDecimal_of_isDigit h)

theorem IsExponent.splitExponent_eq {exponent : List Char} (h : IsExponent exponent) :
    splitExponent exponent = (exponent, []) := by
  rcases h with rfl | ⟨sign, ds, rfl, hsign, hds⟩
  · rfl
  · have hsplit : splitSign (sign :: ds) = ([sign], ds) := by rcases hsign with rfl | rfl <;> rfl
    unfold splitExponent
    simp only [decide_true, Bool.true_or, if_true, hsplit, List.takeWhile_eq_self_iff.2 hds.decimal,
      List.dropWhile_eq_nil_iff.2 hds.decimal]
    obtain ⟨d, ds', rfl⟩ := List.exists_cons_of_ne_nil hds.ne_nil
    rfl

section
variable {cs whole fraction exponent : List Char} (h : IsNumeral cs whole fraction exponent)
include h

theorem IsNumeral.exists_digit : ∃ c ds, cs = c :: ds ∧ c.isDigit = true := by
  obtain ⟨c, ds, hc⟩ := List.exists_cons_of_ne_nil h.whole_run.ne_nil
  refine ⟨c, ds ++ pointText fraction ++ exponent, by rw [h.text, hc]; rfl, h.whole_run.digits c ?_⟩
  rw [hc]
  exact List.mem_cons_self

theorem IsNumeral.splitSign_eq (s : Bool) :
    splitSign ((if s then ['-'] else []) ++ cs) = (if s then ['-'] else [], cs) := by
  obtain ⟨c, ds, rfl, hc⟩ := h.exists_digit
  cases s with
  | false => exact splitSign_of_isDigit hc ds
  | true => rfl

theorem IsNumeral.head?_exponent : ∀ c ∈ exponent.head?, Text.isDecimal c = false ∧ c ≠ '.' := by
  obtain rfl | ⟨sign, ds, rfl, -⟩ := h.exponent_form
  · simp
  · rintro c ⟨⟩
    decide

theorem IsNumeral.splitDigits?_eq : splitDigits? cs = some (whole ++ pointText fraction, exponent) := by
  by_cases hfraction : fraction = []
  · rw [h.text, hfraction, pointText, List.isEmpty_nil, if_pos rfl, List.append_nil]
    exact splitDigits?_whole h.whole_run.decimal h.whole_run.ne_nil h.head?_exponent
  · have hdecimal : ∀ c ∈ fraction, Text.isDecimal c = true :=
      fun c hc => Text.isDecimal_of_isDigit (h.fraction_digits c hc)
    rw [h.text, pointText_of_ne_nil hfraction, List.append_assoc, List.cons_append]
    exact splitDigits?_point h.whole_run.decimal hdecimal (.inl h.whole_run.ne_nil) fun c hc => (h.head?_exponent c hc).1

end

/-- **A numeral has the value of its parts.** -/
theorem IsNumeral.ofNumeral?_eq {cs whole fraction exponent : List Char} (h : IsNumeral cs whole fraction exponent)
    (s : Bool) : ofNumeral? ((if s then ['-'] else []) ++ cs) = some (partsValue s whole fraction exponent) := by
  have hpoint : ∀ c ∈ (pointText fraction).head?, Text.isDecimal c = false := by
    unfold pointText
    split
    · simp
    · rintro c ⟨⟩
      decide
  have hrun := Text.run_append h.whole_run.decimal hpoint
  have hdrop : (pointText fraction).drop 1 = fraction := by
    unfold pointText
    split
    · rename_i hempty
      simp [List.isEmpty_iff.1 hempty]
    · rfl
  have hsign : ((if s then ['-'] else []) == ['-']) = s := by cases s <;> rfl
  unfold ofNumeral? partsValue
  rw [h.splitSign_eq]
  simp only [h.splitDigits?_eq, h.exponent_form.splitExponent_eq, List.isEmpty_nil, if_true, hrun.1, hrun.2, hdrop, hsign]

/-! ## Digits laid out -/

theorem isDigit_of_mem_zeros {n : Nat} {c : Char} (h : c ∈ List.replicate n '0') : c.isDigit = true := by
  rw [List.eq_of_mem_replicate h]
  rfl

theorem partsValue_point (s : Bool) (whole fraction : List Char) :
    partsValue s whole fraction [] = ofDecimal s (Text.decimalValue (whole ++ fraction)) (-fraction.length) := by
  have hnone : exponentValue (List.drop 1 []) = 0 := rfl
  rw [partsValue, hnone, Int.zero_sub]

section
variable {ds : List Char} {m : Nat} {e point : Int} (hds : Text.IsRun ds)
include hds

/-- All digits stand behind the point. -/
theorem isNumeral_behind (hvalue : ∀ s, ofDecimal s (Text.decimalValue ds) (point - ds.length) = finite s m e)
    (h : point ≤ 0) :
    ∃ whole fraction, IsNumeral ('0' :: '.' :: List.replicate (-point).toNat '0' ++ ds) whole fraction [] ∧
      ∀ s, partsValue s whole fraction [] = finite s m e := by
  have hne : List.replicate (-point).toNat '0' ++ ds ≠ [] := by simp [hds.ne_nil]
  refine ⟨['0'], List.replicate (-point).toNat '0' ++ ds, ⟨?_, ⟨by simp, by simp⟩, by simp, ?_, .inl rfl, .inl hne⟩,
    fun s => ?_⟩
  · rw [pointText_of_ne_nil hne]
    simp
  · intro c hc
    exact (List.mem_append.1 hc).elim isDigit_of_mem_zeros (hds.digits c)
  · rw [partsValue_point, List.singleton_append, Text.decimalValue_zero_cons, Text.decimalValue_zeros_append,
      List.length_append, List.length_replicate, ← hvalue s]
    congr 1
    omega

variable (hhead : ds.head? ≠ some '0')
include hhead

/-- All digits stand before the point. -/
theorem isNumeral_before (hm : m ≠ 0)
    (hvalue : ∀ s, ofDecimal s (Text.decimalValue ds) (point - ds.length) = finite s m e) (h : (ds.length : Int) ≤ point) :
    ∃ whole fraction, IsNumeral (ds ++ List.replicate (point - ds.length).toNat '0' ++ ['.', '0']) whole fraction [] ∧
      ∀ s, partsValue s whole fraction [] = finite s m e := by
  have hvalue' := fun s => ofDecimal_mul_pow hm (hvalue s) ((point - ds.length).toNat + 1)
  refine ⟨ds ++ List.replicate (point - ds.length).toNat '0', ['0'],
    ⟨by rw [pointText_of_ne_nil (by simp), List.append_nil], ⟨by simp [hds.ne_nil], ?_⟩, ?_, by simp, .inl rfl, by simp⟩,
    fun s => ?_⟩
  · intro c hc
    exact (List.mem_append.1 hc).elim (hds.digits c) isDigit_of_mem_zeros
  · intro hzero
    obtain ⟨c, cs, rfl⟩ := List.exists_cons_of_ne_nil hds.ne_nil
    exact absurd hzero hhead
  · rw [partsValue_point, show ['0'] = List.replicate 1 '0' from rfl, List.append_assoc, List.replicate_append_replicate,
      Text.decimalValue_append_zeros, ← hvalue' s]
    congr 1
    rw [List.length_replicate]
    omega

/-- The point stands between the digits. -/
theorem isNumeral_between (hvalue : ∀ s, ofDecimal s (Text.decimalValue ds) (point - ds.length) = finite s m e)
    (hlow : 0 < point) (hhigh : point < ds.length) :
    ∃ whole fraction, IsNumeral (ds.take point.toNat ++ '.' :: ds.drop point.toNat) whole fraction [] ∧
      ∀ s, partsValue s whole fraction [] = finite s m e := by
  have hne : ds.drop point.toNat ≠ [] := by
    rw [ne_eq, List.drop_eq_nil_iff]
    omega
  refine ⟨ds.take point.toNat, ds.drop point.toNat, ⟨?_, ⟨?_, ?_⟩, ?_, ?_, .inl rfl, .inl hne⟩, fun s => ?_⟩
  · rw [pointText_of_ne_nil hne, List.append_nil]
  · rw [ne_eq, List.take_eq_nil_iff]
    exact fun h => h.elim (by omega) hds.ne_nil
  · exact fun c hc => hds.digits c (List.mem_of_mem_take hc)
  · intro hzero
    rw [List.head?_take, if_neg (by omega)] at hzero
    exact absurd hzero hhead
  · exact fun c hc => hds.digits c (List.mem_of_mem_drop hc)
  · rw [partsValue_point, List.take_append_drop, List.length_drop, ← hvalue s]
    congr 1
    omega

theorem isNumeral_positional (hm : m ≠ 0)
    (hvalue : ∀ s, ofDecimal s (Text.decimalValue ds) (point - ds.length) = finite s m e) :
    ∃ whole fraction, IsNumeral (positional ds point) whole fraction [] ∧
      ∀ s, partsValue s whole fraction [] = finite s m e := by
  unfold positional
  split
  · rename_i hlow
    exact isNumeral_behind hds hvalue hlow
  · rename_i hlow
    split
    · rename_i hhigh
      exact isNumeral_before hds hhead hm hvalue hhigh
    · rename_i hhigh
      exact isNumeral_between hds hhead hvalue (by omega) (by omega)

theorem isNumeral_scientific {exponent : Int}
    (hvalue : ∀ s, ofDecimal s (Text.decimalValue ds) (exponent + 1 - ds.length) = finite s m e) :
    ∃ whole fraction power, IsNumeral (scientific ds exponent) whole fraction power ∧
      ∀ s, partsValue s whole fraction power = finite s m e := by
  obtain ⟨c, cs, rfl⟩ := List.exists_cons_of_ne_nil hds.ne_nil
  -- the digits of the power are padded to two
  obtain ⟨padded, hpadded, hpower, hscientific⟩ : ∃ padded, Text.IsRun padded ∧ Text.decimalValue padded = exponent.natAbs ∧
      scientific (c :: cs) exponent =
        c :: pointText cs ++ 'e' :: (if exponent < 0 then '-' else '+') :: padded := by
    have hpower := Numeral.isRun_digits exponent.natAbs
    refine ⟨if (Numeral.digits exponent.natAbs).length < 2 then '0' :: Numeral.digits exponent.natAbs
      else Numeral.digits exponent.natAbs, ?_, ?_, by cases cs <;> rfl⟩
    · split
      · exact ⟨by simp, by simpa using hpower.digits⟩
      · exact hpower
    · split
      · rw [Text.decimalValue_zero_cons, Numeral.decimalValue_digits]
      · exact Numeral.decimalValue_digits _
  have hexponent : exponentValue ((if exponent < 0 then '-' else '+') :: padded) = exponent := by
    split
    · show -(Text.decimalValue padded : Int) = exponent
      omega
    · show (Text.decimalValue padded : Int) = exponent
      omega
  rw [hscientific]
  refine ⟨[c], cs, 'e' :: (if exponent < 0 then '-' else '+') :: padded,
    ⟨rfl, ⟨by simp, ?_⟩, ?_, ?_, .inr ⟨_, padded, rfl, ?_, hpadded⟩, by simp⟩, fun s => ?_⟩
  · intro d hd
    rw [List.mem_singleton.1 hd]
    exact hds.digits c List.mem_cons_self
  · intro hzero
    exact absurd hzero hhead
  · exact fun d hd => hds.digits d (List.mem_cons_of_mem _ hd)
  · split
    · exact .inr rfl
    · exact .inl rfl
  · rw [partsValue, List.drop_one, List.tail_cons, hexponent, List.singleton_append, ← hvalue s, List.length_cons]
    congr 1
    omega

end

/-- **The text of a number is a numeral with its value.** -/
theorem isNumeral_magnitudeText {m : Nat} {e : Int} (h : (finite false m e).Canonical) :
    ∃ whole fraction exponent, IsNumeral (magnitudeText m e) whole fraction exponent ∧
      ∀ s, partsValue s whole fraction exponent = finite s m e := by
  unfold magnitudeText
  by_cases hm : m = 0
  · obtain ⟨-, -, -, hbits⟩ := h
    obtain rfl : e = minExponent := hbits.resolve_left (by simp [hm])
    subst hm
    rw [if_pos rfl]
    exact ⟨['0'], ['0'], [], ⟨rfl, ⟨by simp, by simp⟩, by simp, by simp, .inl rfl, by simp⟩, fun s => rfl⟩
  · rw [if_neg hm]
    have hvalue : ∀ s, ofDecimal s (stripZeros (shortest m e).1 (shortest m e).2).1
        (stripZeros (shortest m e).1 (shortest m e).2).2 = finite s m e :=
      ofDecimal_sign hm (ofDecimal_stripZeros hm (ofDecimal_shortest h hm))
    dsimp only
    generalize stripZeros (shortest m e).1 (shortest m e).2 = q at hvalue
    obtain ⟨d, g⟩ := q
    have hd : d ≠ 0 := ((ofDecimal_eq_finite hm).1 (hvalue false)).1.1
    have hrun := Numeral.isRun_digits d
    have hhead := Numeral.head?_digits hd
    have hplace : ∀ s, ofDecimal s (Text.decimalValue (Numeral.digits d))
        (g + (Numeral.digits d).length - (Numeral.digits d).length) = finite s m e := by
      intro s
      rw [Numeral.decimalValue_digits, Int.add_sub_cancel]
      exact hvalue s
    split
    · obtain ⟨whole, fraction, hnumeral, hparts⟩ := isNumeral_positional hrun hhead hm hplace
      exact ⟨whole, fraction, [], hnumeral, hparts⟩
    · exact isNumeral_scientific hrun hhead fun s => by
        rw [Int.sub_add_cancel]
        exact hplace s

theorem equal_self {x : Binary64} (h : x ≠ .nan) : x.equal x = true := by
  cases x with
  | finite s m e => simp [equal]
  | infinite s => simp [equal]
  | nan => exact absurd rfl h

/-- **A finite number is read back from its text.** -/
theorem ofNumeral?_text {s : Bool} {m : Nat} {e : Int} (h : (finite s m e).Canonical) :
    ofNumeral? (finite s m e).text = some (finite s m e) := by
  obtain ⟨whole, fraction, exponent, hnumeral, hparts⟩ := isNumeral_magnitudeText h
  rw [text, hnumeral.ofNumeral?_eq, hparts]

end Binary64

end Rosette
