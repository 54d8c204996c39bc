import Rosette.Json.Reading
import Rosette.Json.Writing

/-!
# Texts between quotes are read back

A character is written as one or two 16-bit units or by its code point, and the units of a text join to the text
(`takeUnits_textLiteral`, `joinUnits_units`).
-/

namespace Rosette

namespace Json

open Text

/-! ## Units -/

/-- No character is half of a surrogate pair. -/
theorem toNat_cases (c : Char) : c.toNat < 0xd800 ∨ (0xdfff < c.toNat ∧ c.toNat < 0x110000) := c.valid

/-- The code points and 16-bit units that a character is written by. -/
def units (c : Char) : List Nat :=
  if c.toNat < 0x10000 then [c.toNat]
  else [0xd800 + (c.toNat - 0x10000) / 0x400, 0xdc00 + (c.toNat - 0x10000) % 0x400]

theorem hexValue?_hexDigit {n : Nat} (h : n < 16) : hexValue? (hexDigit n) = some n := by
  have all : ∀ n < 16, hexValue? (hexDigit n) = some n := by decide
  exact all n h

theorem unit?_hexDigits {n : Nat} (h : n < 0x10000) :
    ∃ a b c d, hexDigits 4 n = [a, b, c, d] ∧ unit? a b c d = some n := by
  refine ⟨_, _, _, _, rfl, ?_⟩
  rw [unit?, hexValue?_hexDigit (by omega), hexValue?_hexDigit (by omega), hexValue?_hexDigit (by omega),
    hexValue?_hexDigit (by omega)]
  simp only [Option.bind_eq_bind, Option.bind_some, Option.some.injEq]
  omega

theorem takeUnits_unitEscape {n : Nat} (h : n < 0x10000) (rest : List Char) :
    takeUnits (unitEscape n ++ rest) = (takeUnits rest).map fun r => (n :: r.1, r.2) := by
  obtain ⟨a, b, c, d, hdigits, hunit⟩ := unit?_hexDigits h
  rw [unitEscape, hdigits]
  simp only [List.cons_append, List.nil_append]
  rw [takeUnits, hunit]
  cases takeUnits rest <;> rfl

theorem takeUnits_unescape {e c : Char} (he : e ≠ 'u') (hc : unescape? e = some c) (rest : List Char) :
    takeUnits ('\\' :: e :: rest) = (takeUnits rest).map fun r => (c.toNat :: r.1, r.2) := by
  rw [takeUnits, hc]
  · cases takeUnits rest <;> rfl
  · rintro _ _ _ _ _ heq
    exact absurd heq he

theorem takeUnits_plain {c : Char} (hquote : c ≠ '"') (hback : c ≠ '\\') (hc : 0x20 ≤ c.toNat) (rest : List Char) :
    takeUnits (c :: rest) = (takeUnits rest).map fun r => (c.toNat :: r.1, r.2) := by
  rw [takeUnits]
  · rw [if_neg (by simp [hback]; omega)]
    cases takeUnits rest <;> rfl
  · exact hquote
  · rintro _ _ _ _ _ rfl
    exact absurd rfl hback
  · rintro _ _ rfl
    exact absurd rfl hback

/-- A character is written as a short escape, as it is, or by its units. -/
theorem escape_cases (c : Char) :
    (∃ e, e ≠ 'u' ∧ unescape? e = some c ∧ escape c = ['\\', e]) ∨
      ((c ≠ '"' ∧ c ≠ '\\') ∧ 0x20 ≤ c.toNat ∧ c.toNat < 0x10000 ∧ escape c = [c]) ∨
      escape c = (units c).flatMap unitEscape := by
  by_cases hshort : c ∈ "\"\\\n\r\t\x08\x0c".toList
  · have all : "\"\\\n\r\t\x08\x0c".toList.all (fun c => "\"\\nrtbf".toList.any fun e =>
        e ≠ 'u' ∧ unescape? e = some c ∧ escape c = ['\\', e]) = true := by decide
    obtain ⟨e, -, he⟩ := List.any_eq_true.1 (List.all_eq_true.1 all c hshort)
    exact .inl ⟨e, of_decide_eq_true he⟩
  have hmarks : c ≠ '"' ∧ c ≠ '\\' ∧ c ≠ '\n' ∧ c ≠ '\r' ∧ c ≠ '\t' ∧ c ≠ '\x08' ∧ c ≠ '\x0c' := by simpa using hshort
  obtain ⟨h1, h2, h3, h4, h5, h6, h7⟩ := hmarks
  unfold escape
  rw [if_neg (by simp [h1, h2]), if_neg h3, if_neg h4, if_neg h5, if_neg h6, if_neg h7]
  split
  · rename_i hplain
    rw [Bool.and_eq_true, decide_eq_true_eq, decide_eq_true_eq, Char.le_def, Char.le_def, UInt32.le_iff_toNat_le,
      UInt32.le_iff_toNat_le] at hplain
    have hlow : 0x20 ≤ c.toNat := hplain.1
    have hhigh : c.toNat ≤ 0x7e := hplain.2
    exact .inr (.inl ⟨⟨h1, h2⟩, hlow, by omega, rfl⟩)
  · right
    right
    unfold units
    split <;> simp

/-- One character in front of what is taken. -/
theorem takeUnits_escape (c : Char) (rest : List Char) :
    takeUnits (escape c ++ rest) = (takeUnits rest).map fun r => (units c ++ r.1, r.2) := by
  obtain ⟨e, he, hc, hescape⟩ | ⟨⟨hquote, hback⟩, hlow, hhigh, hescape⟩ | hescape := escape_cases c
  · have hunits : units c = [c.toNat] := by
      unfold unescape? at hc
      split at hc <;> cases hc <;> rfl
    rw [hescape, hunits]
    exact takeUnits_unescape he hc rest
  · rw [hescape, units, if_pos hhigh]
    exact takeUnits_plain hquote hback hlow rest
  · have hcode := toNat_cases c
    rw [hescape]
    unfold units
    split
    · rename_i hlow
      rw [List.flatMap_singleton]
      exact takeUnits_unitEscape hlow rest
    · simp only [List.flatMap_cons, List.flatMap_nil, List.append_nil, List.append_assoc]
      rw [takeUnits_unitEscape (by omega), takeUnits_unitEscape (by omega), Option.map_map]
      rfl

theorem takeUnits_literal (cs rest : List Char) :
    takeUnits (cs.flatMap escape ++ '"' :: rest) = some (cs.flatMap units, rest) := by
  induction cs with
  | nil => rw [List.flatMap_nil, List.nil_append, takeUnits]; rfl
  | cons c cs ih =>
    rw [List.flatMap_cons, List.append_assoc, takeUnits_escape, ih]
    rfl

theorem joinUnits_units_append (c : Char) (ns : List Nat) : joinUnits (units c ++ ns) = c :: joinUnits ns := by
  have hc := toNat_cases c
  unfold units
  split
  · have hone : ¬ (0xd800 ≤ c.toNat ∧ c.toNat < 0xe000) := by omega
    cases ns with
    | nil =>
      simp only [List.append_nil, joinUnits, if_neg hone, Char.ofNat_toNat]
    | cons n ns =>
      rw [List.cons_append, List.nil_append, joinUnits, if_neg (by omega), if_neg hone, Char.ofNat_toNat]
  · simp only [List.cons_append, List.nil_append]
    rw [joinUnits, if_pos (by omega), show 0x10000 + (0xd800 + (c.toNat - 0x10000) / 0x400 - 0xd800) * 0x400 +
      (0xdc00 + (c.toNat - 0x10000) % 0x400 - 0xdc00) = c.toNat by omega, Char.ofNat_toNat]

theorem joinUnits_units (cs : List Char) : joinUnits (cs.flatMap units) = cs := by
  induction cs with
  | nil => rfl
  | cons c cs ih => rw [List.flatMap_cons, joinUnits_units_append, ih]

end Json

end Rosette
