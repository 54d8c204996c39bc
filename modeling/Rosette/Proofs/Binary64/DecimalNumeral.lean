import Rosette.Binary64.Reading
import Rosette.Proofs.Text.Trim

/-!
# Decimal numerals

A decimal numeral in its parts, with digits of any script, has a text and a value (`DecimalNumeral`). Reading takes each
part as far as it goes. Where it takes more of one part than a numeral in front of the text has, no later part of that
numeral is lost by it, since the mark of an exponent is no digit and no point. So the numeral cut off the front of a text
is the longest one there, and it is one that can be read.

Main result: `leading?_longest`.
-/

namespace Rosette.Binary64

open Text

/-! ## Numerals in their parts -/

/-- A sign, or nothing. -/
def IsSign (cs : List Char) : Prop := cs = [] ∨ cs = ['+'] ∨ cs = ['-']

/-- Digits with a point before, among or behind them, or without a point. -/
structure Mantissa where
  whole : List Char
  /-- The digits behind the point, if there is one. -/
  fraction : Option (List Char)
  whole_decimal : ∀ c ∈ whole, isDecimal c = true
  fraction_decimal : ∀ ds ∈ fraction, ∀ c ∈ ds, isDecimal c = true
  exists_digit : whole ≠ [] ∨ ∃ ds ∈ fraction, ds ≠ []

/-- A mark with a sign and digits. -/
structure Exponent where
  mark : Char
  sign : List Char
  digits : List Char
  mark_eq : mark = 'e' ∨ mark = 'E'
  isSign : IsSign sign
  digits_ne_nil : digits ≠ []
  digits_decimal : ∀ c ∈ digits, isDecimal c = true

structure DecimalNumeral where
  sign : List Char
  mantissa : Mantissa
  exponent : Option Exponent
  isSign : IsSign sign

namespace Mantissa

/-- The digits behind the point. -/
def places (m : Mantissa) : List Char := m.fraction.getD []

def text (m : Mantissa) : List Char := m.whole ++ (m.fraction.map ('.' :: ·)).getD []

end Mantissa

namespace Exponent

def text (e : Exponent) : List Char := e.mark :: e.sign ++ e.digits

def value (e : Exponent) : Int := if e.sign = ['-'] then -decimalValue e.digits else decimalValue e.digits

end Exponent

namespace DecimalNumeral

/-- What stands behind the digits. -/
def tail (d : DecimalNumeral) : List Char := (d.exponent.map Exponent.text).getD []

def text (d : DecimalNumeral) : List Char := d.sign ++ d.mantissa.text ++ d.tail

/-- The number nearest to the digits times a power of ten. -/
def value (d : DecimalNumeral) : Binary64 :=
  ofDecimal (d.sign == ['-']) (decimalValue (d.mantissa.whole ++ d.mantissa.places))
    ((d.exponent.map Exponent.value).getD 0 - d.mantissa.places.length)

end DecimalNumeral

variable {cs ds w rest s : List Char} {c : Char}

/-! ## Signs -/

theorem splitSign_append (hs : IsSign s) (h : ∀ c ∈ cs.head?, c ≠ '+' ∧ c ≠ '-') : splitSign (s ++ cs) = (s, cs) := by
  obtain rfl | rfl | rfl := hs
  · cases cs with
    | nil => rfl
    | cons c cs =>
      obtain ⟨hplus, hminus⟩ := h c rfl
      rw [List.nil_append, splitSign]
      · exact fun _ heq => hplus (List.cons.inj heq).1
      · exact fun _ heq => hminus (List.cons.inj heq).1
  · rfl
  · rfl

theorem splitSign_parts (cs : List Char) : IsSign (splitSign cs).1 ∧ (splitSign cs).1 ++ (splitSign cs).2 = cs := by
  unfold splitSign
  split
  · exact ⟨.inr (.inl rfl), rfl⟩
  · exact ⟨.inr (.inr rfl), rfl⟩
  · exact ⟨.inl rfl, rfl⟩

/-- A decimal digit is no sign. -/
theorem not_sign_of_isDecimal (h : isDecimal c = true) : c ≠ '+' ∧ c ≠ '-' := by
  constructor <;> (rintro rfl; exact absurd h (by decide))

/-! ## Digits and their point -/

theorem splitDigits?_whole (hw : ∀ c ∈ w, isDecimal c = true) (hne : w ≠ [])
    (hrest : ∀ c ∈ rest.head?, isDecimal c = false ∧ c ≠ '.') : splitDigits? (w ++ rest) = some (w, rest) := by
  obtain ⟨htake, hdrop⟩ := run_append hw fun c hc => (hrest c hc).1
  obtain ⟨c, cs, rfl⟩ := List.exists_cons_of_ne_nil hne
  unfold splitDigits?
  rw [htake, hdrop]
  cases rest with
  | nil => rfl
  | cons d rest =>
    have hpoint := (hrest d rfl).2
    dsimp only
    split <;> simp_all

theorem splitDigits?_point (hw : ∀ c ∈ w, isDecimal c = true) (hds : ∀ c ∈ ds, isDecimal c = true)
    (hne : w ≠ [] ∨ ds ≠ []) (hrest : ∀ c ∈ rest.head?, isDecimal c = false) :
    splitDigits? (w ++ '.' :: (ds ++ rest)) = some (w ++ '.' :: ds, rest) := by
  obtain ⟨htake, hdrop⟩ := run_append hw
    (head?_cons_of_not (p := isDecimal) (a := '.') (by decide) (ds ++ rest))
  obtain ⟨htake', hdrop'⟩ := run_append hds hrest
  unfold splitDigits?
  rw [htake, hdrop]
  cases w with
  | nil =>
    obtain ⟨d, ds, rfl⟩ := List.exists_cons_of_ne_nil (hne.resolve_left (by simp))
    simp only [htake', hdrop', List.nil_append]
  | cons c w => simp only [htake', hdrop']

theorem splitDigits?_eq_none (hw : ∀ c ∈ cs.head?, isDecimal c = false)
    (h : ∀ ds, cs = '.' :: ds → ∀ c ∈ ds.head?, isDecimal c = false) : splitDigits? cs = none := by
  obtain ⟨htake, hdrop⟩ := run_append (l := []) (by simp) hw
  rw [List.nil_append] at htake hdrop
  unfold splitDigits?
  rw [htake, hdrop]
  dsimp only
  split
  · rename_i ds _
    obtain ⟨hdigits, -⟩ := run_append (l := []) (by simp) (h ds rfl)
    rw [List.nil_append] at hdigits
    rw [hdigits]
  all_goals simp_all

/-- A text goes on with digits as far as it does. -/
theorem exists_run (cs : List Char) : ∃ ds rest, cs = ds ++ rest ∧ (∀ c ∈ ds, isDecimal c = true) ∧
    ∀ c ∈ rest.head?, isDecimal c = false :=
  ⟨cs.takeWhile isDecimal, cs.dropWhile isDecimal, List.takeWhile_append_dropWhile.symm,
    fun _ hc => List.mem_takeWhile_imp hc, head?_dropWhile_eq_false⟩

/-- What digits there are in front of a text is found, and nothing else is taken for them. -/
theorem splitDigits?_cases (cs : List Char) :
    splitDigits? cs = none ∨
      ∃ (m : Mantissa) (rest : List Char), cs = m.text ++ rest ∧ splitDigits? cs = some (m.text, rest) := by
  obtain ⟨w, behind, rfl, hw, hbehind⟩ := exists_run cs
  by_cases hpoint : ∃ more, behind = '.' :: more
  · obtain ⟨more, rfl⟩ := hpoint
    obtain ⟨ds, rest, rfl, hds, hrest⟩ := exists_run more
    by_cases hne : w ≠ [] ∨ ds ≠ []
    · exact .inr ⟨⟨w, some ds, hw, by simpa using hds, by simpa using hne⟩, rest, by simp [Mantissa.text],
        splitDigits?_point hw hds hne hrest⟩
    · simp only [ne_eq, not_or, not_not] at hne
      obtain ⟨rfl, rfl⟩ := hne
      exact .inl (splitDigits?_eq_none hbehind fun _ heq => (List.cons.inj heq).2 ▸ hrest)
  · by_cases hne : w = []
    · subst hne
      exact .inl (splitDigits?_eq_none hbehind fun ds heq => absurd ⟨ds, heq⟩ hpoint)
    · refine .inr ⟨⟨w, none, hw, by simp, .inl hne⟩, behind, by simp [Mantissa.text], ?_⟩
      have htext : Mantissa.text ⟨w, none, hw, by simp, .inl hne⟩ = w := by simp [Mantissa.text]
      rw [htext]
      refine splitDigits?_whole hw hne fun c hc => ⟨hbehind c hc, ?_⟩
      rintro rfl
      exact hpoint (List.head?_eq_some_iff.1 hc)

namespace Mantissa

theorem exists_head (m : Mantissa) : ∃ c rest, m.text = c :: rest ∧ (isDecimal c = true ∨ c = '.') := by
  obtain ⟨w, fraction, hw, hds, hne⟩ := m
  cases w with
  | cons c w => exact ⟨c, _, rfl, .inl (hw c List.mem_cons_self)⟩
  | nil =>
    obtain ⟨ds, rfl, -⟩ := hne.resolve_left (by simp)
    exact ⟨'.', ds, rfl, .inr rfl⟩

/-- In front of more text a mantissa is found, with what goes on with it: digits, or a point that it has not. -/
theorem splitDigits?_append (m : Mantissa) (cs : List Char) :
    ∃ more rest, cs = more ++ rest ∧ splitDigits? (m.text ++ cs) = some (m.text ++ more, rest) ∧
      ∀ c ∈ more.head?, isDecimal c = true ∨ c = '.' := by
  obtain ⟨w, fraction, hw, hfraction, hne⟩ := m
  obtain ⟨more, behind, rfl, hmore, hbehind⟩ := exists_run cs
  cases fraction with
  | some ds =>
    have hds : ∀ c ∈ ds ++ more, isDecimal c = true := List.forall_mem_append.2 ⟨hfraction ds rfl, hmore⟩
    refine ⟨more, behind, rfl, ?_, fun c hc => .inl (hmore c (List.mem_of_mem_head? hc))⟩
    have hpoint := splitDigits?_point hw hds (hne.imp_right fun ⟨_, heq, h⟩ => by cases heq; simp [h]) hbehind
    simpa [text] using hpoint
  | none =>
    have hwne : w ++ more ≠ [] := by simp [hne.resolve_right (by simp)]
    have hwhole : ∀ c ∈ w ++ more, isDecimal c = true := List.forall_mem_append.2 ⟨hw, hmore⟩
    by_cases hpoint : ∃ behind', behind = '.' :: behind'
    · obtain ⟨behind', rfl⟩ := hpoint
      obtain ⟨ds, rest, rfl, hds, hrest⟩ := exists_run behind'
      refine ⟨more ++ '.' :: ds, rest, by simp, ?_, fun c hc => ?_⟩
      · simpa [text] using splitDigits?_point hwhole hds (.inl hwne) hrest
      · cases more with
        | nil =>
          cases hc
          exact .inr rfl
        | cons d more =>
          cases hc
          exact .inl (hmore c List.mem_cons_self)
    · refine ⟨more, behind, rfl, ?_, fun c hc => .inl (hmore c (List.mem_of_mem_head? hc))⟩
      have hstop := splitDigits?_whole hwhole hwne fun c hc => ⟨hbehind c hc, fun heq =>
        hpoint (List.head?_eq_some_iff.1 (heq ▸ hc))⟩
      simpa [text] using hstop

theorem splitDigits?_of_stop (m : Mantissa) (h : ∀ c ∈ cs.head?, isDecimal c = false ∧ c ≠ '.') :
    splitDigits? (m.text ++ cs) = some (m.text, cs) := by
  obtain ⟨more, rest, rfl, hsplit, hmore⟩ := m.splitDigits?_append cs
  cases more with
  | nil => simpa using hsplit
  | cons c more =>
    obtain ⟨hdecimal, hpoint⟩ := h c rfl
    obtain hc | hc := hmore c rfl
    · rw [hdecimal] at hc
      cases hc
    · exact absurd hc hpoint

/-- The point parts the digits of a mantissa. -/
theorem run_text (m : Mantissa) :
    m.text.takeWhile isDecimal = m.whole ∧ (m.text.dropWhile isDecimal).drop 1 = m.places := by
  obtain ⟨w, fraction, hw, hfraction, hne⟩ := m
  have hpoint : ∀ c ∈ ((fraction.map ('.' :: ·)).getD []).head?, isDecimal c = false := by
    cases fraction with
    | none => simp
    | some ds =>
      rintro c ⟨⟩
      decide
  obtain ⟨htake, hdrop⟩ := run_append hw hpoint
  refine ⟨htake, ?_⟩
  rw [text, hdrop]
  cases fraction <;> rfl

end Mantissa

/-! ## Exponents -/

namespace Exponent

theorem head?_text (e : Exponent) : ∀ c ∈ e.text.head?, isDecimal c = false ∧ c ≠ '.' := by
  rintro c ⟨⟩
  obtain h | h := e.mark_eq <;> rw [h] <;> decide

theorem splitExponent_append (e : Exponent) (cs : List Char) :
    ∃ more rest, cs = more ++ rest ∧ splitExponent (e.text ++ cs) = (e.text ++ more, rest) := by
  obtain ⟨mark, sign, ds, hmark, hsign, hne, hds⟩ := e
  obtain ⟨more, rest, rfl, hmore, hrest⟩ := exists_run cs
  obtain ⟨d, ds, rfl⟩ := List.exists_cons_of_ne_nil hne
  have hall : ∀ c ∈ d :: ds ++ more, isDecimal c = true := List.forall_mem_append.2 ⟨hds, hmore⟩
  have hrun := run_append hall hrest
  have hd := hds d List.mem_cons_self
  have hsplit : splitSign (sign ++ (d :: ds ++ more ++ rest)) = (sign, d :: ds ++ more ++ rest) := by
    refine splitSign_append hsign ?_
    rintro c ⟨⟩
    exact not_sign_of_isDecimal hd
  refine ⟨more, rest, rfl, ?_⟩
  have htext : text ⟨mark, sign, d :: ds, hmark, hsign, hne, hds⟩ ++ (more ++ rest) =
      mark :: (sign ++ (d :: ds ++ more ++ rest)) := by simp [text]
  have hm : (mark = 'e' || mark = 'E') = true := by simpa using hmark
  rw [htext, splitExponent]
  simp only [hm, if_true, hsplit, hrun.1, hrun.2]
  simp [text]

/-- The sign and the digits of an exponent write its value. -/
theorem exponentValue_drop_text (e : Exponent) : exponentValue (e.text.drop 1) = e.value := by
  obtain ⟨mark, sign, ds, hmark, hsign, hne, hds⟩ := e
  have hsplit : splitSign (sign ++ ds) = (sign, ds) :=
    splitSign_append hsign fun c hc => not_sign_of_isDecimal (hds c (List.mem_of_mem_head? hc))
  have hdrop : List.drop 1 (text ⟨mark, sign, ds, hmark, hsign, hne, hds⟩) = sign ++ ds := rfl
  rw [hdrop, exponentValue, hsplit, value]
  obtain rfl | rfl | rfl := hsign <;> rfl

end Exponent

/-- What is taken for an exponent is one. -/
theorem splitExponent_parts (cs : List Char) :
    (splitExponent cs).1 ++ (splitExponent cs).2 = cs ∧
      ∃ e? : Option Exponent, (splitExponent cs).1 = (e?.map Exponent.text).getD [] := by
  cases cs with
  | nil => exact ⟨rfl, none, rfl⟩
  | cons mark cs =>
    unfold splitExponent
    dsimp only
    split
    · rename_i hmark
      obtain ⟨hsign, hcs⟩ := splitSign_parts cs
      have hrun := List.takeWhile_append_dropWhile (p := isDecimal) (l := (splitSign cs).2)
      split
      · exact ⟨rfl, none, rfl⟩
      · rename_i hne
        refine ⟨?_, some ⟨mark, (splitSign cs).1, (splitSign cs).2.takeWhile isDecimal, by simpa using hmark, hsign,
          hne, fun c hc => List.mem_takeWhile_imp hc⟩, rfl⟩
        rw [List.append_assoc, hrun, List.cons_append, hcs]
    · exact ⟨rfl, none, rfl⟩

/-! ## The longest numeral -/

namespace DecimalNumeral

theorem splitSign_text (d : DecimalNumeral) (cs : List Char) :
    splitSign (d.text ++ cs) = (d.sign, d.mantissa.text ++ (d.tail ++ cs)) := by
  obtain ⟨c, rest, htext, hc⟩ := d.mantissa.exists_head
  rw [text, List.append_assoc, List.append_assoc, splitSign_append d.isSign]
  rw [htext]
  rintro _ ⟨⟩
  obtain hc | rfl := hc
  · exact not_sign_of_isDecimal hc
  · decide

theorem head?_tail (d : DecimalNumeral) : ∀ c ∈ d.tail.head?, isDecimal c = false ∧ c ≠ '.' := by
  cases h : d.exponent with
  | none => simp [tail, h]
  | some e => simpa [tail, h] using e.head?_text

/-- **What is cut off is longest**: it reaches as far as any numeral in front of the text. -/
theorem leadingNumeral?_append (d : DecimalNumeral) (cs : List Char) :
    ∃ more, leadingNumeral? (d.text ++ cs) = some (d.text ++ more) := by
  unfold leadingNumeral?
  rw [d.splitSign_text]
  cases hexponent : d.exponent with
  | none =>
    have htail : d.tail = [] := by rw [tail, hexponent]; rfl
    obtain ⟨more, rest, -, hdigits, -⟩ := d.mantissa.splitDigits?_append cs
    simp only [htail, List.nil_append, hdigits]
    exact ⟨more ++ (splitExponent rest).1, by simp [text, htail]⟩
  | some e =>
    -- no digits go on with the mark of the exponent, so all of it is left for the exponent
    have htail : d.tail = e.text := by rw [tail, hexponent]; rfl
    have hdigits : splitDigits? (d.mantissa.text ++ (e.text ++ cs)) = some (d.mantissa.text, e.text ++ cs) :=
      d.mantissa.splitDigits?_of_stop e.head?_text
    obtain ⟨more, rest, -, hsplit⟩ := e.splitExponent_append cs
    simp only [htail, hdigits, hsplit]
    exact ⟨more, by simp [text, htail]⟩

/-- A numeral by itself is read, and its value is that of its parts. -/
theorem ofNumeral?_text (d : DecimalNumeral) : ofNumeral? d.text = some d.value := by
  have hsign := d.splitSign_text []
  simp only [List.append_nil] at hsign
  have htail : splitExponent d.tail = (d.tail, []) ∧
      exponentValue (d.tail.drop 1) = (d.exponent.map Exponent.value).getD 0 := by
    cases hexponent : d.exponent with
    | none =>
      rw [tail, hexponent]
      exact ⟨rfl, rfl⟩
    | some e =>
      rw [tail, hexponent]
      obtain ⟨more, rest, hnil, hsplit⟩ := e.splitExponent_append []
      obtain ⟨rfl, rfl⟩ := List.append_eq_nil_iff.1 hnil.symm
      rw [List.append_nil] at hsplit
      exact ⟨hsplit, e.exponentValue_drop_text⟩
  unfold ofNumeral? value
  simp only [hsign, d.mantissa.splitDigits?_of_stop d.head?_tail, htail.1, htail.2, d.mantissa.run_text.1,
    d.mantissa.run_text.2, List.isEmpty_nil, if_true]

end DecimalNumeral

theorem leadingNumeral?_of_prefix {d : DecimalNumeral} (h : d.text <+: cs) :
    ∃ s, leadingNumeral? cs = some s ∧ d.text <+: s := by
  obtain ⟨rest, rfl⟩ := h
  obtain ⟨more, hmore⟩ := d.leadingNumeral?_append rest
  exact ⟨_, hmore, List.prefix_append _ _⟩

/-- What is cut off is a numeral. -/
theorem leadingNumeral?_eq_some (h : leadingNumeral? cs = some s) : ∃ d : DecimalNumeral, d.text = s ∧ s <+: cs := by
  obtain ⟨hsign, hcs⟩ := splitSign_parts cs
  unfold leadingNumeral? at h
  obtain hnone | ⟨m, rest, hrest, hdigits⟩ := splitDigits?_cases (splitSign cs).2
  · simp only [hnone] at h
    cases h
  · obtain ⟨happend, e?, he⟩ := splitExponent_parts rest
    simp only [hdigits, Option.some.injEq] at h
    refine ⟨⟨(splitSign cs).1, m, e?, hsign⟩, ?_, (splitExponent rest).2, ?_⟩
    · rw [← h, he]
      rfl
    · rw [← h, List.append_assoc, happend, List.append_assoc, ← hrest, hcs]

/-! ## The free reading of a numeral -/

theorem joinDigits?_eq_self (h : '_' ∉ cs) (afterDigit : Bool) : joinDigits? afterDigit cs = some cs := by
  induction cs generalizing afterDigit with
  | nil => rfl
  | cons c cs ih =>
    rw [List.mem_cons, not_or] at h
    rw [joinDigits?, if_neg (Ne.symm h.1), ih h.2, Option.map_some]

/-- The name of a number begins with a letter. -/
theorem ofName?_foldAscii (h : isDecimal c = true ∨ c = '.') (cs : List Char) :
    ofName? (foldAscii (c :: cs)) = none := by
  have hne : c.toLower ≠ 'i' ∧ c.toLower ≠ 'n' := by
    obtain h | rfl := h
    · rw [toLower_of_isDecimal h]
      constructor <;> (rintro rfl; exact absurd h (by decide))
    · decide
  simp [ofName?, foldAscii, hne]

theorem isMargin_eq_false (h : isBlank c = false) : isMargin c = false := by rw [isMargin, h, Bool.false_and]

theorem dropMargins_eq_self (h : ∀ c ∈ cs, isBlank c = false) :
    ((cs.dropWhile isMargin).reverse.dropWhile isMargin).reverse = cs := by
  have hdrop : ∀ l : List Char, (∀ c ∈ l, isBlank c = false) → l.dropWhile isMargin = l := by
    intro l hl
    cases l with
    | nil => rfl
    | cons c l => rw [List.dropWhile_cons_of_neg (by simp [isMargin_eq_false (hl c List.mem_cons_self)])]
  rw [hdrop cs h, hdrop cs.reverse (by simpa using h), List.reverse_reverse]

/-- A character of decimal numerals. -/
def IsNumeralChar (c : Char) : Prop := isDecimal c = true ∨ c ∈ ['+', '-', '.', 'e', 'E']

theorem IsNumeralChar.isBlank_eq_false (h : IsNumeralChar c) : isBlank c = false := by
  obtain h | h := h
  · by_contra hblank
    have hdigit := isDigit_of_isBlank (Bool.not_eq_false _ ▸ hblank)
    rw [isDigit, h, Bool.true_or] at hdigit
    cases hdigit
  · have all : ['+', '-', '.', 'e', 'E'].all (!isBlank ·) = true := by decide
    simpa using List.all_eq_true.1 all c h

theorem IsNumeralChar.ne_underscore (h : IsNumeralChar c) : c ≠ '_' := by
  rintro rfl
  obtain h | h := h <;> exact absurd h (by decide)

theorem IsSign.isNumeralChar (hs : IsSign s) (h : c ∈ s) : IsNumeralChar c := by
  obtain rfl | rfl | rfl := hs
  · cases h
  · rw [List.mem_singleton.1 h]
    exact .inr (by decide)
  · rw [List.mem_singleton.1 h]
    exact .inr (by decide)

theorem Mantissa.isNumeralChar {m : Mantissa} (h : c ∈ m.text) : IsNumeralChar c := by
  obtain ⟨w, fraction, hw, hfraction, hne⟩ := m
  obtain h | h := List.mem_append.1 h
  · exact .inl (hw c h)
  · cases fraction with
    | none => cases h
    | some ds =>
      obtain rfl | h := List.mem_cons.1 h
      · exact .inr (by decide)
      · exact .inl (hfraction ds rfl c h)

theorem Exponent.isNumeralChar {e : Exponent} (h : c ∈ e.text) : IsNumeralChar c := by
  obtain h | h := List.mem_append.1 h
  · obtain rfl | h := List.mem_cons.1 h
    · obtain hmark | hmark := e.mark_eq <;> (rw [hmark]; exact .inr (by decide))
    · exact e.isSign.isNumeralChar h
  · exact .inl (e.digits_decimal c h)

namespace DecimalNumeral

theorem isNumeralChar {d : DecimalNumeral} (h : c ∈ d.text) : IsNumeralChar c := by
  rw [text, List.mem_append, List.mem_append] at h
  obtain (h | h) | h := h
  · exact d.isSign.isNumeralChar h
  · exact Mantissa.isNumeralChar h
  · cases hexponent : d.exponent with
    | none => simp [tail, hexponent] at h
    | some e =>
      simp only [tail, hexponent, Option.map_some, Option.getD_some] at h
      exact Exponent.isNumeralChar h

/-- The text of a numeral has none of what the free reading takes besides, so it is read as a numeral. -/
theorem ofText?_text (d : DecimalNumeral) : ofText? d.text = some d.value := by
  have hblank : ∀ c ∈ d.text, isBlank c = false := fun c hc => (isNumeralChar hc).isBlank_eq_false
  have hjoint : '_' ∉ d.text := fun hc => (isNumeralChar hc).ne_underscore rfl
  have hsign := d.splitSign_text []
  obtain ⟨c, rest, hhead, hc⟩ := d.mantissa.exists_head
  rw [hhead, List.append_nil, List.append_nil, List.cons_append] at hsign
  unfold ofText?
  rw [dropMargins_eq_self hblank]
  simp only [hsign, ofName?_foldAscii hc, joinDigits?_eq_self hjoint, Option.bind_some, d.ofNumeral?_text]

end DecimalNumeral

/-- **The longest numeral is read**: no number is found exactly where no numeral stands in front of the trimmed text.
Else the number is the value of the longest one, which is also what the text of this numeral alone is read as. -/
theorem leading?_longest (cs : List Char) :
    (leading? cs = none ↔ ∀ d : DecimalNumeral, ¬ d.text <+: trim cs) ∧
      ∀ x, leading? cs = some x → ∃ d : DecimalNumeral, d.text <+: trim cs ∧
        (∀ e : DecimalNumeral, e.text <+: trim cs → e.text <+: d.text) ∧ ofText? d.text = some x ∧ x = d.value := by
  cases hleading : leadingNumeral? (trim cs) with
  | none =>
    have hnone : leading? cs = none := by rw [leading?, hleading, Option.bind_none]
    refine ⟨iff_of_true hnone fun d hd => ?_, fun x hx => ?_⟩
    · obtain ⟨s, hs, -⟩ := leadingNumeral?_of_prefix hd
      rw [hleading] at hs
      cases hs
    · rw [hnone] at hx
      cases hx
  | some s =>
    obtain ⟨d, rfl, hd⟩ := leadingNumeral?_eq_some hleading
    have hsome : leading? cs = some d.value := by rw [leading?, hleading, Option.bind_some, d.ofNumeral?_text]
    refine ⟨iff_of_false (by simp [hsome]) fun hnone => hnone d hd, fun x hx => ?_⟩
    rw [hsome] at hx
    cases hx
    refine ⟨d, hd, fun e he => ?_, d.ofText?_text, rfl⟩
    obtain ⟨s, hs, hprefix⟩ := leadingNumeral?_of_prefix he
    rw [hleading] at hs
    cases hs
    exact hprefix

end Rosette.Binary64
