import Rosette.Proofs.Binary64.SixPlaces
import Rosette.Proofs.Document.Lines

/-!
# Which numbers of a document are kept

A radius that is read from a line of a ring, and a number that is read for the dot or for a colour, is written without an
exponent, so that the forms of lines take the text again. It stands for the same number exactly if six places keep it.

Main result: `readBack_iff_isKept`.
-/

namespace Rosette

open Text

namespace Binary64

variable {s : Bool} {m : Nat} {e : Int} {cs whole fraction exponent : List Char} {x : Binary64}

/-! ## Numbers that are read -/

theorem ofNumeral?_eq_some (h : ofNumeral? cs = some x) : ∃ d g, x = ofDecimal ((splitSign cs).1 == ['-']) d g := by
  unfold ofNumeral? at h
  dsimp only at h
  split at h
  · cases h
  · split at h
    · cases h
      exact ⟨_, _, rfl⟩
    · cases h

theorem canonical_of_ofNumeral? (h : ofNumeral? cs = some (finite s m e)) :
    s = ((splitSign cs).1 == ['-']) ∧ (finite s m e).Canonical := by
  obtain ⟨d, g, hdecimal⟩ := ofNumeral?_eq_some h
  exact canonical_ofDecimal hdecimal.symm

theorem canonical_of_leading? (h : leading? cs = some (finite s m e)) : (finite s m e).Canonical := by
  obtain ⟨ds, -, hds⟩ := Option.bind_eq_some_iff.1 h
  exact (canonical_of_ofNumeral? hds).2

/-! ## Numerals in front of a text -/

theorem IsNumeral.leading?_eq (h : IsNumeral cs whole fraction exponent)
    (htrim : Trimmed ((if s then ['-'] else []) ++ cs)) :
    leading? ((if s then ['-'] else []) ++ cs) = some (partsValue s whole fraction exponent) := by
  have hleading : leadingNumeral? ((if s then ['-'] else []) ++ cs) = some ((if s then ['-'] else []) ++ cs) := by
    unfold leadingNumeral?
    rw [h.splitSign_eq]
    simp only [h.splitDigits?_eq, h.exponent_form.splitExponent_eq]
    rw [List.append_assoc, ← h.text]
  rw [leading?, htrim.trim_eq, hleading, Option.bind_some, h.ofNumeral?_eq]

theorem IsNumeral.splitRadius?_eq (h : IsNumeral cs whole fraction []) : Document.splitRadius? cs = some (cs, []) := by
  have hne : fraction ≠ [] := h.marked.resolve_right (by simp)
  have hdecimal : ∀ c ∈ fraction, isDecimal c = true := fun c hc => isDecimal_of_isDigit (h.fraction_digits c hc)
  have hrun := run_append h.whole_run.decimal (head?_cons_of_not (p := isDecimal) (a := '.') (by decide) fraction)
  have htext : cs = whole ++ '.' :: fraction := by rw [h.text, pointText_of_ne_nil hne, List.append_nil]
  obtain ⟨c, ds, hwhole⟩ := List.exists_cons_of_ne_nil h.whole_run.ne_nil
  unfold Document.splitRadius?
  rw [htext, hrun.1, hrun.2, hwhole]
  simp only [List.takeWhile_eq_self_iff.2 hdecimal, List.dropWhile_eq_nil_iff.2 hdecimal]

/-- No text of a radius begins with a sign. -/
theorem splitSign_of_splitRadius? (h : Document.splitRadius? cs = some (cs, [])) : splitSign cs = ([], cs) := by
  have hsign : ∀ c ds, isDecimal c = true → splitSign (c :: ds) = ([], c :: ds) := by
    intro c ds hc
    unfold splitSign
    split
    · rename_i heq
      cases heq
      exact absurd hc (by decide)
    · rename_i heq
      cases heq
      exact absurd hc (by decide)
    · rfl
  obtain ⟨whole, hne, hdecimal, hcs⟩ := Document.splitRadius?_eq_self h
  obtain ⟨c, ds, rfl⟩ := List.exists_cons_of_ne_nil hne
  obtain rfl | ⟨fraction, -, -, rfl⟩ := hcs
  · exact hsign c ds (hdecimal c List.mem_cons_self)
  · exact hsign c _ (hdecimal c List.mem_cons_self)

end Binary64

namespace Document

variable {s : Settings} {line : List Char} {r : Ring} {x : Binary64}

/-- The line of a ring has the text of its radius, and a comma behind it. -/
theorem exists_radius_of_text (hx : r.radius = .float x) (h : r.text = .ok line) :
    ∃ rest, line = 'O' :: '(' :: (x.plainText ++ ',' :: rest) := by
  unfold Ring.text at h
  rw [hx] at h
  simp only [Writing.measureText, Measure.text, Except.mapError, bind, Except.bind] at h
  split at h
  · cases h
  split at h
  · cases h
  cases h
  exact ⟨_, by simp [call, List.intercalate]; rfl⟩

/-- The line of a ring that was read has the form of one, with the text of its radius. -/
theorem exists_form_of_isRead (h : r.IsRead s) (hx : r.radius = .float x)
    (hsplit : splitRadius? x.plainText = some (x.plainText, [])) :
    ∃ line form, r.text = .ok line ∧ ringForm? line = some form ∧ form.radius = x.plainText := by
  obtain ⟨n, hn, hfits⟩ := h.count
  obtain ⟨pattern, hpattern, hphrase, hbracket, -⟩ := h.patternText
  obtain ⟨htail, -⟩ := splitColors_colorsText hphrase hbracket h.colors
  have hradius : Writing.measureText r.radius = .ok x.plainText := by
    rw [hx]
    rfl
  have hcount : r.elementCount.text.mapError Writing.Fault.numeral = .ok (Numeral.digits n) := by
    rw [hn, Count.text, Count.toValue, Value.written, Numeral.write_natCast hfits]
    rfl
  obtain ⟨form, hform, hformRadius, -⟩ := ringForm?_text hsplit (Numeral.isRun_digits n) htail
  exact ⟨_, form, Ring.text_of_parts hradius hcount hpattern, hform, hformRadius⟩

/-- **Which numbers of a document are kept.** The radius of a ring is written so that the line of a ring takes it, and
the numbers of the dot and of colours are written so that they are read again; each is read as the number that it was
exactly if six places keep that. -/
theorem readBack_iff_isKept (cs : List Char) (negative : Bool) (m : Nat) (e : Int) :
    (splitRadius? cs = some (cs, []) → Binary64.ofNumeral? cs = some (.finite negative m e) →
      ∃ radius y, Binary64.ofNumeral? radius = some y ∧
        (y = .finite negative m e ↔ (Binary64.finite negative m e).IsKept) ∧
        (∀ (r : Ring) (line : List Char), r.radius = .float (.finite negative m e) → r.text = .ok line →
          ∃ rest, line = 'O' :: '(' :: (radius ++ ',' :: rest) ∧
            splitRadius? (radius ++ ',' :: rest) = some (radius, ',' :: rest)) ∧
        ∀ (s : Settings) (r : Ring), r.radius = .float (.finite negative m e) → r.IsRead s →
          ∃ line form, r.text = .ok line ∧ ringForm? line = some form ∧ form.radius = radius) ∧
    (Binary64.leading? cs = some (.finite negative m e) →
      ∃ t y, Measure.text (.float (.finite negative m e)) = .ok t ∧ Binary64.leading? t = some y ∧
        (y = .finite negative m e ↔ (Binary64.finite negative m e).IsKept)) := by
  constructor
  · intro hsplit hvalue
    obtain ⟨hsign, hcanonical⟩ := Binary64.canonical_of_ofNumeral? hvalue
    rw [Binary64.splitSign_of_splitRadius? hsplit] at hsign
    obtain rfl : negative = false := hsign
    obtain ⟨radius, whole, fraction, htext, hnumeral, hkept⟩ := Binary64.exists_numeral_plainText hcanonical
    rw [if_neg Bool.false_ne_true, List.nil_append] at htext
    refine ⟨radius, _, hnumeral.ofNumeral?_eq false, hkept, fun r line hx hline => ?_, fun s r hx hr => ?_⟩
    · obtain ⟨rest, hrest⟩ := exists_radius_of_text hx hline
      rw [htext] at hrest
      exact ⟨rest, hrest, splitRadius?_append hnumeral.splitRadius?_eq rest⟩
    · obtain ⟨line, form, hline, hform, hradius⟩ :=
        exists_form_of_isRead hr hx (by rw [htext]; exact hnumeral.splitRadius?_eq)
      exact ⟨line, form, hline, hform, htext ▸ hradius⟩
  · intro hvalue
    obtain ⟨digits, whole, fraction, htext, hnumeral, hkept⟩ :=
      Binary64.exists_numeral_plainText (Binary64.canonical_of_leading? hvalue)
    have htrim := Binary64.trimmed_plainText (.finite negative m e)
    rw [htext] at htrim
    exact ⟨_, _, congrArg Except.ok htext, hnumeral.leading?_eq htrim, hkept⟩

/-- Two millionths are kept in the line of a ring, and ten of them in a parameter. -/
theorem readBack_iff_isKept_millionths :
    (∀ (r : Ring) (line : List Char), r.radius = .float (.finite false 4722366482869645 (-71)) → r.text = .ok line →
      ∃ radius rest, line = 'O' :: '(' :: (radius ++ ',' :: rest) ∧
        splitRadius? (radius ++ ',' :: rest) = some (radius, ',' :: rest) ∧
        Binary64.ofNumeral? radius = Binary64.ofNumeral? "0.000002".toList) ∧
    ∃ t, Measure.text (.float (.finite false 5902958103587057 (-69))) = .ok t ∧
      Binary64.leading? t = Binary64.leading? "1e-05px".toList := by
  have htwo : Binary64.ofNumeral? "0.000002".toList = some (.finite false 4722366482869645 (-71)) := by decide +kernel
  have hten : Binary64.leading? "1e-05px".toList = some (.finite false 5902958103587057 (-69)) := by decide +kernel
  obtain ⟨radius, y, hy, hkept, hline, -⟩ := (readBack_iff_isKept _ _ _ _).1 (by decide +kernel) htwo
  obtain ⟨t, z, ht, hz, hkept'⟩ := (readBack_iff_isKept _ _ _ _).2 hten
  rw [hkept.2 (.inr ⟨2, by decide +kernel⟩)] at hy
  rw [hkept'.2 (.inr ⟨10, by decide +kernel⟩)] at hz
  refine ⟨fun r line hr htext => ?_, t, ht, hz.trans hten.symm⟩
  obtain ⟨rest, hrest, hsplit⟩ := hline r line hr htext
  exact ⟨radius, rest, hrest, hsplit, hy.trans htwo.symm⟩

/-- Less than half a millionth is lost: a ring with the radius `0.00000015` is written with the radius zero. -/
theorem radius_lost_in_text :
    splitRadius? "0.00000015".toList = some ("0.00000015".toList, []) ∧
      Binary64.ofNumeral? "0.00000015".toList = some (.finite false 5666839779443574 (-75)) ∧
      Ring.text ⟨.float (.finite false 5666839779443574 (-75)), .times 1, .symbol "d" false .absent, none⟩ =
        .ok "O(0.000000, 1): d".toList ∧
      (ringForm? "O(0.000000, 1): d".toList).map RingForm.radius = some "0.000000".toList ∧
      Binary64.ofNumeral? "0.000000".toList = some (.finite false 0 (-1074)) ∧
      Binary64.finite false 0 (-1074) ≠ .finite false 5666839779443574 (-75) := by
  refine ⟨by decide +kernel, by decide +kernel, ?_, by decide +kernel, by decide +kernel, by decide⟩
  with_unfolding_all rfl

end Document

end Rosette
