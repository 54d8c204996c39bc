import Rosette.Proofs.Text.Ascii
import Rosette.Text.Blank
import Rosette.Text.Call
import Rosette.Text.Split

/-!
# Trimmed texts, and texts that are split

A trimmed text has no white space at its ends, and trimming it again changes nothing. Texts joined with a character
that none of them holds are found again by splitting (`splitAtChar_intercalate`).
-/

namespace Rosette.Text

variable {a b cs : List Char}

/-! ## White space has no letters and no digits -/

theorem isBlank_of_isAlphanum {c : Char} (h : c.isAlphanum = true) : isBlank c = false := by
  rw [isAlphanum_iff_toNat] at h
  rw [← Bool.not_eq_true]
  simp only [isBlank, blankRanges, covers, Bool.and_eq_true, Bool.or_eq_true, decide_eq_true_eq, Bool.false_eq_true,
    or_false]
  omega

theorem exists_range_of_covers {rs : List (Nat × Nat)} {n : Nat} (h : covers rs n = true) :
    ∃ r ∈ rs, r.1 ≤ n ∧ n ≤ r.2 := by
  induction rs with
  | nil => simp [covers] at h
  | cons r rs ih =>
    obtain ⟨lo, hi⟩ := r
    simp only [covers, Bool.and_eq_true, Bool.or_eq_true, decide_eq_true_eq] at h
    obtain ⟨hlo, hhi | hrest⟩ := h
    · exact ⟨_, List.mem_cons_self, hlo, hhi⟩
    · obtain ⟨r, hr, hle⟩ := ih hrest
      exact ⟨r, List.mem_cons_of_mem _ hr, hle⟩

theorem isDigit_of_isBlank {c : Char} (h : isBlank c = true) : isDigit c = false := by
  -- the ranges of white space are short, so they are gone through point by point
  have all : ∀ r ∈ blankRanges, ∀ k < r.2 + 1 - r.1,
      ((offsetFromZero zeros (r.1 + k)).isSome || covers otherDigitRanges (r.1 + k)) = false := by
    decide +kernel
  obtain ⟨r, hr, hlo, hhi⟩ := exists_range_of_covers h
  have hpoint := all r hr (c.toNat - r.1) (by omega)
  rwa [show r.1 + (c.toNat - r.1) = c.toNat by omega] at hpoint

/-! ## Trimmed texts -/

/-- There is no white space at the ends of the text. -/
structure Trimmed (cs : List Char) : Prop where
  head : ∀ c ∈ cs.head?, isBlank c = false
  last : ∀ c ∈ cs.getLast?, isBlank c = false

theorem trimmed_nil : Trimmed [] := ⟨by simp, by simp⟩

theorem Trimmed.of_all (h : ∀ c ∈ cs, isBlank c = false) : Trimmed cs :=
  ⟨fun c hc => h c (List.mem_of_mem_head? hc), fun c hc => h c (List.mem_of_mem_getLast? hc)⟩

/-- A closed text is checked character by character. -/
theorem Trimmed.of_check (h : cs.all (!isBlank ·) = true) : Trimmed cs :=
  .of_all fun c hc => by simpa using List.all_eq_true.1 h c hc

theorem Trimmed.append (ha : Trimmed a) (hb : Trimmed b) : Trimmed (a ++ b) := by
  constructor
  · intro c hc
    rw [List.head?_append, Option.mem_def, Option.or_eq_some_iff] at hc
    rcases hc with hc | ⟨-, hc⟩
    · exact ha.head c hc
    · exact hb.head c hc
  · intro c hc
    rw [List.getLast?_append, Option.mem_def, Option.or_eq_some_iff] at hc
    rcases hc with hc | ⟨-, hc⟩
    · exact hb.last c hc
    · exact ha.last c hc

/-- What stands between two texts that are not empty does not matter. -/
theorem Trimmed.around (ha : Trimmed a) (hb : Trimmed b) (hane : a ≠ []) (hbne : b ≠ []) (m : List Char) :
    Trimmed (a ++ m ++ b) := by
  obtain ⟨c, a, rfl⟩ := List.exists_cons_of_ne_nil hane
  constructor
  · intro d hd
    rw [List.append_assoc, List.cons_append, List.head?_cons] at hd
    cases hd
    exact ha.head c rfl
  · intro d hd
    rw [List.getLast?_append, List.getLast?_eq_some_getLast hbne] at hd
    exact hb.last d (by rwa [List.getLast?_eq_some_getLast hbne])

theorem trimLeft_eq_self (h : ∀ c ∈ cs.head?, isBlank c = false) : trimLeft cs = cs := by
  cases cs with
  | nil => rfl
  | cons c cs => rw [trimLeft, List.dropWhile_cons_of_neg (by simp [h c rfl])]

theorem trimRight_eq_self (h : ∀ c ∈ cs.getLast?, isBlank c = false) : trimRight cs = cs := by
  have hrev : trimLeft cs.reverse = cs.reverse := trimLeft_eq_self (by rwa [List.head?_reverse])
  unfold trimLeft at hrev
  rw [trimRight, hrev, List.reverse_reverse]

theorem Trimmed.trim_eq (h : Trimmed cs) : trim cs = cs := by
  rw [trim, trimLeft_eq_self h.head, trimRight_eq_self h.last]

theorem trimLeft_cons_space (cs : List Char) : trimLeft (' ' :: cs) = trimLeft cs := by
  have hspace : isBlank ' ' = true := by decide
  rw [trimLeft, List.dropWhile_cons_of_pos hspace]
  rfl

theorem trim_cons_space (cs : List Char) : trim (' ' :: cs) = trim cs := by
  rw [trim, trimLeft_cons_space]
  rfl

theorem trim_cons {c : Char} (h : isBlank c = false) (cs : List Char) : trim (c :: cs) = c :: trimRight cs := by
  have hlast : [c].dropWhile isBlank = [c] := by simp [h]
  rw [trim, trimLeft_eq_self (head?_cons_of_not h cs), trimRight, trimRight, List.reverse_cons, List.dropWhile_append]
  split
  · rename_i hempty
    rw [hlast, List.isEmpty_iff.1 hempty]
    rfl
  · simp

theorem trimRight_space (h : ∀ c ∈ cs.getLast?, isBlank c = false) : trimRight (cs ++ [' ']) = cs := by
  have hspace : isBlank ' ' = true := by decide
  rw [trimRight, List.reverse_append, List.reverse_singleton, List.singleton_append,
    List.dropWhile_cons_of_pos hspace]
  exact trimRight_eq_self h

theorem head?_trimLeft {c : Char} (h : c ∈ (trimLeft cs).head?) : isBlank c = false :=
  head?_dropWhile_eq_false c h

theorem prefix_trimRight (cs : List Char) : trimRight cs <+: cs := by
  rw [trimRight, ← List.reverse_suffix, List.reverse_reverse]
  exact List.dropWhile_suffix _

theorem trimmed_trim (cs : List Char) : Trimmed (trim cs) := by
  have hlast : ∀ c ∈ (trim cs).getLast?, isBlank c = false := by
    intro c hc
    rw [trim, trimRight, List.getLast?_reverse] at hc
    exact head?_trimLeft hc
  refine ⟨fun c hc => ?_, hlast⟩
  obtain ⟨rest, hrest⟩ := prefix_trimRight (trimLeft cs)
  rw [← trim] at hrest
  refine head?_trimLeft (?_ : c ∈ (trimLeft cs).head?)
  rw [← hrest, List.head?_append, Option.mem_def, Option.mem_def.1 hc]
  rfl

/-- What is trimmed in front stays trimmed behind. -/
theorem trimmed_trimLeft (h : ∀ c ∈ cs.getLast?, isBlank c = false) : Trimmed (trimLeft cs) := by
  refine ⟨fun c hc => head?_trimLeft hc, fun c hc => ?_⟩
  obtain ⟨front, hfront⟩ := List.dropWhile_suffix isBlank (l := cs)
  refine h c ?_
  rw [← hfront, List.getLast?_append, Option.mem_def]
  unfold trimLeft at hc
  rw [Option.mem_def.1 hc]
  rfl

theorem mem_of_mem_trimLeft {c : Char} (h : c ∈ trimLeft cs) : c ∈ cs := (List.dropWhile_suffix _).subset h

theorem mem_of_mem_trim {c : Char} (h : c ∈ trim cs) : c ∈ cs := by
  rw [trim, trimRight, List.mem_reverse] at h
  exact mem_of_mem_trimLeft (List.mem_reverse.1 ((List.dropWhile_suffix _).subset h))

/-- A trimmed text in one line, which is not empty. -/
structure IsPhrase (cs : List Char) : Prop where
  ne_nil : cs ≠ []
  trimmed : Trimmed cs
  unbroken : '\n' ∉ cs

theorem IsPhrase.append (ha : IsPhrase a) (hb : IsPhrase b) : IsPhrase (a ++ b) :=
  ⟨by simp [ha.ne_nil], ha.trimmed.append hb.trimmed, by simp [ha.unbroken, hb.unbroken]⟩

theorem isPhrase_singleton {c : Char} (h : isBlank c = false) : IsPhrase [c] := by
  refine ⟨by simp, .of_all (by simpa using h), ?_⟩
  rw [List.mem_singleton]
  rintro rfl
  exact absurd h (by decide)

theorem feed_not_mem_of_isAlphanum (h : ∀ c ∈ cs, c.isAlphanum = true) : '\n' ∉ cs :=
  fun hmem => absurd (h _ hmem) (by decide)

/-! ## Splitting -/

theorem splitAtChar_eq_splitOn (sep : Char) (cs : List Char) : splitAtChar sep cs = cs.splitOn sep := by
  induction cs with
  | nil => rfl
  | cons c cs ih =>
    rw [List.splitOn_cons_eq_if_modifyHead, ← ih]
    by_cases hc : c = sep
    · simp [splitAtChar, hc]
    · obtain ⟨p, ps, hs⟩ := List.exists_cons_of_ne_nil (splitAtChar_ne_nil sep cs)
      rw [splitAtChar_cons_of_ne hc hs, if_neg (by simpa using hc), hs]
      rfl

theorem length_splitAtChar (sep : Char) (cs : List Char) : (splitAtChar sep cs).length = cs.count sep + 1 := by
  induction cs with
  | nil => rfl
  | cons c cs ih =>
    by_cases hc : c = sep
    · simp [splitAtChar, hc, ih]
    · obtain ⟨p, ps, hs⟩ := List.exists_cons_of_ne_nil (splitAtChar_ne_nil sep cs)
      rw [splitAtChar_cons_of_ne hc hs, List.count_cons_of_ne hc, ← ih, hs, List.length_cons, List.length_cons]

/-- The pieces of a text with the separator behind each are the text with one more separator. -/
theorem flatMap_splitAtChar (sep : Char) (cs : List Char) :
    (splitAtChar sep cs).flatMap (· ++ [sep]) = cs ++ [sep] := by
  induction cs with
  | nil => rfl
  | cons c cs ih =>
    by_cases hc : c = sep
    · simp [splitAtChar, hc, ih]
    · obtain ⟨p, ps, hs⟩ := List.exists_cons_of_ne_nil (splitAtChar_ne_nil sep cs)
      rw [hs, List.flatMap_cons] at ih
      rw [splitAtChar_cons_of_ne hc hs, List.flatMap_cons, List.cons_append, List.cons_append, ih, List.cons_append]

/-- Splitting goes on behind a place where the text is cut. -/
theorem splitAtChar_append (sep : Char) (a b : List Char) :
    splitAtChar sep (a ++ sep :: b) = splitAtChar sep a ++ splitAtChar sep b := by
  simp only [splitAtChar_eq_splitOn]
  exact List.splitOn_append_cons_self a b

/-- Texts without the character are found again between the places where it was put. -/
theorem splitAtChar_intercalate {sep : Char} {ps : List (List Char)} (hne : ps ≠ []) (h : ∀ p ∈ ps, sep ∉ p) :
    splitAtChar sep ([sep].intercalate ps) = ps := by
  rw [splitAtChar_eq_splitOn]
  exact List.splitOn_intercalate sep h hne

theorem intercalate_comma_space (p : List Char) (ps : List (List Char)) :
    [',', ' '].intercalate (p :: ps) = [','].intercalate (p :: ps.map (' ' :: ·)) := by
  induction ps generalizing p with
  | nil => rfl
  | cons q ps ih =>
    rw [List.intercalate_cons_cons, ih, List.map_cons, List.intercalate_cons_cons, List.intercalate_cons_cons_left]
    simp

/-- What is found in the items of a list does not depend on the spaces behind its commas. -/
theorem map_splitAtChar_list {β : Type} {f : List Char → β} {ps : List (List Char)} (hne : ps ≠ [])
    (hcomma : ∀ p ∈ ps, ',' ∉ p) (hf : ∀ p ∈ ps, f (' ' :: p) = f p) :
    (splitAtChar ',' ([',', ' '].intercalate ps)).map f = ps.map f := by
  obtain ⟨p, ps, rfl⟩ := List.exists_cons_of_ne_nil hne
  rw [intercalate_comma_space, splitAtChar_intercalate (by simp), List.map_cons, List.map_map, List.map_cons]
  · congr 1
    exact List.map_congr_left fun q hq => hf q (List.mem_cons_of_mem _ hq)
  · intro q hq
    rcases List.mem_cons.1 hq with rfl | hq
    · exact hcomma q List.mem_cons_self
    · obtain ⟨r, hr, rfl⟩ := List.mem_map.1 hq
      simpa using hcomma r (List.mem_cons_of_mem _ hr)

theorem mem_intercalate {α : Type} {c : α} {sep : List α} {ps : List (List α)} (h : c ∈ sep.intercalate ps) :
    c ∈ sep ∨ ∃ p ∈ ps, c ∈ p := by
  induction ps with
  | nil => cases h
  | cons p ps ih =>
    by_cases hps : ps = []
    · rw [hps, List.intercalate_singleton] at h
      exact .inr ⟨p, List.mem_cons_self, h⟩
    · rw [List.intercalate_cons_of_ne_nil hps, List.mem_append, List.mem_append] at h
      rcases h with (h | h) | h
      · exact .inr ⟨p, List.mem_cons_self, h⟩
      · exact .inl h
      · exact (ih h).imp_right fun ⟨q, hq, hc⟩ => ⟨q, List.mem_cons_of_mem _ hq, hc⟩

theorem mem_intercalate_of_mem {c : Char} {sep p : List Char} {ps : List (List Char)} (hp : p ∈ ps) (hc : c ∈ p) :
    c ∈ sep.intercalate ps := by
  induction ps with
  | nil => cases hp
  | cons q ps ih =>
    by_cases hps : ps = []
    · subst hps
      rwa [List.intercalate_singleton, ← List.mem_singleton.1 hp]
    · rw [List.intercalate_cons_of_ne_nil hps, List.mem_append, List.mem_append]
      rcases List.mem_cons.1 hp with rfl | hp
      · exact .inl (.inl hc)
      · exact .inr (ih hp)

theorem mem_of_mem_splitAtChar {sep : Char} {p : List Char} {c : Char} (hp : p ∈ splitAtChar sep cs) (hc : c ∈ p) :
    c ∈ cs := by
  rw [← intercalate_splitAtChar sep cs]
  exact mem_intercalate_of_mem hp hc

/-! ## Calls -/

theorem isPhrase_call {name : List Char} {parts : List (List Char)} (hne : name ≠ []) (hname : Trimmed name)
    (hfeed : '\n' ∉ name) (hparts : '\n' ∉ [',', ' '].intercalate parts) : IsPhrase (call name parts) := by
  refine ⟨by simp [call], hname.around (.of_check (by decide)) hne (by simp) _, ?_⟩
  simp [call, hfeed, hparts]

theorem feed_not_mem_intercalate {parts : List (List Char)} (h : ∀ t ∈ parts, '\n' ∉ t) :
    '\n' ∉ [',', ' '].intercalate parts := by
  intro hmem
  rcases mem_intercalate hmem with hmem | ⟨t, ht, hmem⟩
  · exact absurd hmem (by decide)
  · exact h t ht hmem

end Rosette.Text
