import Rosette.Proofs.Text.Ascii

/-!
# Small letters stay small

Of all characters, only the Latin letters, the dotted capital `I` and the Kelvin sign have small letters in ASCII
(`lowerChar_foreign`). So a word that is ASCII once it is in small letters is a word of ASCII characters without capitals
(`isWordChar_of_mem_lower`), and making it small again changes nothing (`lower_lower`).
-/

namespace Rosette.Text

open LetterCase

/-! ## Word characters -/

theorem isAlphanumeric_of_ascii {c : Char} (h : c.toNat < 128) : isAlphanumeric c = c.isAlphanum := by
  by_cases hc : c.isAlphanum = true
  · rw [hc, isAlphanumeric_of_isAlphanum hc]
  · obtain ⟨rs, hrs⟩ : ∃ rs, alphanumericRanges = (0x30, 0x39) :: (0x41, 0x5a) :: (0x61, 0x7a) :: (0xaa, 0xaa) :: rs :=
      ⟨_, rfl⟩
    have hn := hc
    rw [isAlphanum_iff_toNat] at hn
    have hcovers : isAlphanumeric c = false := by
      rw [← Bool.not_eq_true]
      simp only [isAlphanumeric, hrs, covers, Bool.and_eq_true, Bool.or_eq_true, decide_eq_true_eq]
      omega
    rw [hcovers]
    simpa using hc

theorem isWordChar_toLower {c : Char} (h : c.toNat < 128) (hc : isWordChar c = true) : isWordChar c.toLower = true := by
  simp only [isWordChar, Bool.or_eq_true, beq_iff_eq] at hc ⊢
  rcases hc with rfl | hc
  · exact .inl (by decide)
  · rw [isAlphanumeric_of_ascii h] at hc
    right
    exact isAlphanumeric_of_isAlphanum (by rwa [(toLower_ascii h).2.2])

/-! ## Small letters -/

/-- A code point stays where it is, or one of the runs moves it. -/
theorem moved_cases (rs : List Run) (n : Nat) :
    moved rs n = n ∨ ∃ r ∈ rs, r.first ≤ n ∧ n ≤ r.last ∧ moved rs n = (n + r.shift).toNat := by
  induction rs with
  | nil => exact .inl rfl
  | cons r rs ih =>
    rw [moved]
    split
    · exact .inl rfl
    · rename_i hfirst
      split
      · rename_i hlast
        split
        · exact .inr ⟨r, List.mem_cons_self, by omega, hlast, rfl⟩
        · exact .inl rfl
      · obtain h | ⟨r', hr', h⟩ := ih
        · exact .inl h
        · exact .inr ⟨r', List.mem_cons_of_mem _ hr', h⟩

/-- Where the runs of capitals lead: to Latin letters from these, to `k` from the Kelvin sign, and from all others
to characters that are not ASCII. -/
theorem lowerRuns_cases : ∀ r ∈ lowerRuns, r.last < 128 ∨ (r.first = r.last ∧ (r.first + r.shift : Int) = 0x6b) ∨
    (128 ≤ (r.first + r.shift : Int) ∧ ((r.last + r.shift : Int) < 0xd800 ∨
      (0xdfff < (r.first + r.shift : Int) ∧ (r.last + r.shift : Int) < 0x110000))) := by
  decide +kernel

/-- Beyond ASCII only two characters have small letters in it: the dotted capital `I` and the Kelvin sign. -/
theorem lowerChar_foreign {c d : Char} (hd : d ∈ lowerChar c) (hc : 128 ≤ c.toNat) (hascii : d.toNat < 128) :
    d = 'i' ∨ d = 'k' := by
  rw [lowerChar] at hd
  split at hd
  · rw [List.mem_cons, List.mem_singleton] at hd
    rcases hd with rfl | rfl
    · exact .inl rfl
    · exact absurd hascii (by decide)
  · rw [List.mem_singleton] at hd
    obtain h | ⟨r, hr, hfirst, hlast, h⟩ := moved_cases lowerRuns c.toNat
    · rw [h, Char.ofNat_toNat] at hd
      subst hd
      omega
    · rw [h] at hd
      obtain hrun | ⟨hone, hkelvin⟩ | ⟨hlarge, hvalid⟩ := lowerRuns_cases r hr
      · omega
      · have hk : (c.toNat + r.shift : Int).toNat = 0x6b := by omega
        rw [hk] at hd
        exact .inr hd
      · subst hd
        have hn : (c.toNat + r.shift : Int).toNat.isValidChar := by
          unfold Nat.isValidChar
          omega
        have hmoved : (Char.ofNat (c.toNat + r.shift : Int).toNat).toNat = (c.toNat + r.shift : Int).toNat := by
          unfold Char.ofNat
          rw [dif_pos hn]
          rfl
        omega

/-- What a character of a word has in ASCII as its small letter is of words again, and small. -/
theorem lowerChar_ascii {c d : Char} (hd : d ∈ lowerChar c) (hascii : d.toNat < 128) (hc : isWordChar c = true) :
    isWordChar d = true ∧ d.toLower = d := by
  by_cases hsmall : c.toNat < 128
  · rw [lowerChar_of_ascii hsmall, List.mem_singleton] at hd
    subst hd
    exact ⟨isWordChar_toLower hsmall hc, (toLower_ascii hsmall).1⟩
  · obtain rfl | rfl := lowerChar_foreign hd (by omega) hascii <;> decide

/-- A single character has no context. -/
theorem lower_singleton (c : Char) : lower [c] = lowerChar c := by
  rw [lower, lowerAfter, lowerAfter, List.append_nil]
  simp [meetsCased]

theorem mem_lowerAfter {before cs : List Char} {d : Char} (h : d ∈ lowerAfter before cs) :
    d = 'ς' ∨ ∃ c ∈ cs, d ∈ lowerChar c := by
  induction cs generalizing before with
  | nil => cases h
  | cons c cs ih =>
    rw [lowerAfter] at h
    split at h
    · rcases List.mem_cons.1 h with rfl | h
      · exact .inl rfl
      · obtain hd | ⟨c', hc', hd⟩ := ih h
        · exact .inl hd
        · exact .inr ⟨c', List.mem_cons_of_mem _ hc', hd⟩
    · rcases List.mem_append.1 h with h | h
      · exact .inr ⟨c, List.mem_cons_self, h⟩
      · obtain hd | ⟨c', hc', hd⟩ := ih h
        · exact .inl hd
        · exact .inr ⟨c', List.mem_cons_of_mem _ hc', hd⟩

theorem mem_lower_ascii {cs : List Char} (hcs : ∀ c ∈ cs, isWordChar c = true) {d : Char} (h : d ∈ lower cs)
    (hascii : d.toNat < 128) : isWordChar d = true ∧ d.toLower = d := by
  obtain rfl | ⟨c, hc, hd⟩ := mem_lowerAfter h
  · exact absurd hascii (by decide)
  · exact lowerChar_ascii hd hascii (hcs c hc)

/-- A word that is ASCII in small letters is a word there. -/
theorem isWordChar_of_mem_lower {cs : List Char} (hcs : ∀ c ∈ cs, isWordChar c = true)
    (hascii : ∀ d ∈ lower cs, d.toNat < 128) : ∀ d ∈ lower cs, isWordChar d = true :=
  fun d hd => (mem_lower_ascii hcs hd (hascii d hd)).1

/-- Making a word small twice is making it small, where the result is ASCII. -/
theorem lower_lower {cs : List Char} (hcs : ∀ c ∈ cs, isWordChar c = true) (hascii : ∀ d ∈ lower cs, d.toNat < 128) :
    lower (lower cs) = lower cs := by
  rw [lower_of_ascii hascii, foldAscii]
  exact (List.map_congr_left fun d hd => (mem_lower_ascii hcs hd (hascii d hd)).2).trans (List.map_id _)

theorem lowerChar_ne_nil (c : Char) : lowerChar c ≠ [] := by
  rw [lowerChar]
  split <;> simp

theorem lower_ne_nil {cs : List Char} (h : cs ≠ []) : lower cs ≠ [] := by
  obtain ⟨c, cs, rfl⟩ := List.exists_cons_of_ne_nil h
  rw [lower, lowerAfter]
  split
  · simp
  · exact List.append_ne_nil_of_left_ne_nil (lowerChar_ne_nil c) _

end Rosette.Text
