import Rosette.Proofs.Pattern.Expansion
import Rosette.Proofs.Pattern.Rows

/-!
# Element counts tile

An element count puts whole copies of a row side by side and cuts a part of one more off for the rest. Stroke by stroke
that is the row over and over (`Repetition.IsTiling`), whatever the count and the length of the row. A tiling begins with
every shorter one, so a row with an element count begins with the rows of all smaller counts.

Main result: `expand_elementCount`.
-/

namespace Rosette

namespace Repetition

variable {α : Type} {l s t : List α} {k n : Nat}

/-- The members of a list over and over, `n` of them. -/
structure IsTiling (n : Nat) (l t : List α) : Prop where
  length : t.length = n
  member : ∀ i < n, t[i]? = l[i % l.length]?

theorem length_copies (k : Nat) (l : List α) : (copies k l).length = k * l.length := by
  simp [copies_eq_flatten_replicate]

theorem copies_succ (k : Nat) (l : List α) : copies ((k + 1 : Nat) : Int) l = l ++ copies k l := by
  simp only [copies_eq_flatten_replicate, Int.toNat_natCast, List.replicate_succ, List.flatten_cons]

theorem getElem?_copies {i : Nat} (hi : i < k * l.length) : (copies k l)[i]? = l[i % l.length]? := by
  induction k generalizing i with
  | zero => simp at hi
  | succ k ih =>
    rw [copies_succ]
    by_cases hfirst : i < l.length
    · rw [List.getElem?_append_left hfirst, Nat.mod_eq_of_lt hfirst]
    · rw [Nat.not_lt] at hfirst
      rw [Nat.succ_mul] at hi
      rw [List.getElem?_append_right hfirst, ih (by omega), ← Nat.mod_eq_sub_mod hfirst]

/-- Whole copies and a part of one are a tiling. -/
theorem isTiling_copies_append (hl : l ≠ []) (n : Nat) :
    IsTiling n l (copies (n / l.length : Nat) l ++ l.take (n % l.length)) := by
  have hpos := List.length_pos_iff.2 hl
  have hrest := Nat.mod_lt n hpos
  have hsum : n / l.length * l.length + n % l.length = n := by
    rw [Nat.mul_comm, Nat.div_add_mod]
  constructor
  · rw [List.length_append, length_copies, List.length_take, Nat.min_eq_left hrest.le, hsum]
  · intro i hi
    by_cases hwhole : i < n / l.length * l.length
    · rw [List.getElem?_append_left (by rwa [length_copies]), getElem?_copies hwhole]
    · obtain ⟨j, rfl⟩ := Nat.exists_eq_add_of_le (Nat.not_lt.1 hwhole)
      have hj : j < n % l.length := by omega
      rw [List.getElem?_append_right (by rw [length_copies]; omega), length_copies, Nat.add_sub_cancel_left,
        List.getElem?_take_of_lt hj, Nat.add_comm, Nat.add_mul_mod_self_right, Nat.mod_eq_of_lt (hj.trans hrest)]

/-- A tiling begins with every shorter one. -/
theorem IsTiling.isPrefix (hs : IsTiling k l s) (ht : IsTiling n l t) (hle : k ≤ n) : s <+: t := by
  rw [List.prefix_iff_eq_take]
  refine List.ext_getElem? fun i => ?_
  rw [hs.length]
  by_cases hi : i < k
  · rw [List.getElem?_take_of_lt hi, hs.member i hi, ht.member i (by omega)]
  · rw [List.getElem?_take_eq_none (Nat.not_lt.1 hi), List.getElem?_eq_none (by rw [hs.length]; omega)]

theorem IsTiling.unique (hs : IsTiling n l s) (ht : IsTiling n l t) : s = t :=
  (hs.isPrefix ht le_rfl).eq_of_length (hs.length.trans ht.length.symm)

/-- A natural number of members is a tiling, if the whole copies in it can be counted. -/
theorem tile?_eq_some_iff (hl : l ≠ []) : tile? n l = some t ↔ fits (n / l.length : Nat) = true ∧ IsTiling n l t := by
  have hquotient : (n : Int).fdiv l.length = (n / l.length : Nat) := by
    rw [Int.fdiv_eq_ediv_of_nonneg _ (by omega), Int.natCast_ediv]
  have hrest : ((n : Int).fmod l.length).toNat = n % l.length := by
    rw [Int.fmod_eq_emod_of_nonneg _ (by omega), ← Int.natCast_emod, Int.toNat_natCast]
  have htiling := isTiling_copies_append hl n
  rw [tile?, if_neg (by simpa using hl), hquotient, hrest, copies?]
  cases fits (n / l.length : Nat) with
  | false => simp
  | true =>
    simp only [if_true, Option.map_some, Option.some.injEq, true_and]
    exact ⟨fun h => h ▸ htiling, htiling.unique⟩

end Repetition

namespace Pattern

open Expansion

variable {limit : Int} {p : Pattern} {n : Nat} {once row : List Stroke}

theorem tiled_times_eq_ok :
    tiled (.times n) once = .ok row ↔ (once = [] ∧ row = []) ∨
      once ≠ [] ∧ Repetition.fits (n / once.length : Nat) = true ∧ Repetition.IsTiling n once row := by
  have htile : tiled (.times n) once = .ok row ↔ Repetition.tile? n once = some row := by
    unfold tiled Count.number?
    dsimp only
    cases Repetition.tile? (n : Int) once <;> simp
  rw [htile]
  by_cases honce : once = []
  · subst honce
    rw [Repetition.tile?, List.isEmpty_nil, if_pos rfl, Option.some.injEq]
    simp only [true_and, ne_eq, not_true_eq_false, false_and, or_false]
    exact eq_comm
  · rw [Repetition.tile?_eq_some_iff honce]
    simp [honce]

/-- An element count is no level, and fills a row from that of its pattern. -/
theorem expand_elementCount_eq_ok :
    expand limit (.elementCount p (.times n)) = .ok row ↔
      ∃ once, expand limit p = .ok once ∧ tiled (.times n) once = .ok row := by
  rw [expand, expandAt, bind_eq_ok]
  rfl

/-- **Element counts tile cyclically.** A row that is tiled to `n` strokes is empty if there is nothing to tile, and
otherwise its strokes are the `n` first of those of the pattern over and over. It begins with the row of each smaller
count. -/
theorem expand_elementCount (h : expand limit (.elementCount p (.times n)) = .ok row) :
    ∃ once, expand limit p = .ok once ∧ (once = [] → row = []) ∧
      (once ≠ [] → row.length = n ∧ ∀ i < n, row[i]? = once[i % once.length]?) ∧
      ∀ k ≤ n, ∃ start, expand limit (.elementCount p (.times k)) = .ok start ∧ start <+: row := by
  obtain ⟨once, honce, htiled⟩ := expand_elementCount_eq_ok.1 h
  have hsmaller : ∀ k : Nat, ∀ start, tiled (.times k) once = .ok start →
      expand limit (.elementCount p (.times k)) = .ok start :=
    fun k start hstart => expand_elementCount_eq_ok.2 ⟨once, honce, hstart⟩
  refine ⟨once, honce, ?_⟩
  obtain ⟨rfl, rfl⟩ | ⟨hne, hfits, htiling⟩ := tiled_times_eq_ok.1 htiled
  · refine ⟨fun _ => rfl, fun hne => absurd rfl hne, fun k _ => ⟨[], ?_, List.prefix_rfl⟩⟩
    exact hsmaller k [] (tiled_times_eq_ok.2 (.inl ⟨rfl, rfl⟩))
  · refine ⟨fun hempty => absurd hempty hne, fun _ => ⟨htiling.length, htiling.member⟩, fun k hk => ?_⟩
    have hstart := Repetition.isTiling_copies_append hne k
    have hle : k / once.length ≤ n / once.length := Nat.div_le_div_right hk
    have hfew := Repetition.fits_of_le (Int.natCast_nonneg _) (Int.ofNat_le.2 hle) hfits
    exact ⟨_, hsmaller k _ (tiled_times_eq_ok.2 (.inr ⟨hne, hfew, hstart⟩)), hstart.isPrefix htiling hk⟩

/-- A row of three strokes is tiled to four, and these to six. -/
theorem expand_elementCount_twice :
    let inner : Pattern := .elementCount (.sequence [.symbol "d" true (.times 2), .symbol "h" false .absent] .absent)
      (.times 4)
    let row : List Stroke := [⟨"d", true⟩, ⟨"d", true⟩, ⟨"h", false⟩, ⟨"d", true⟩, ⟨"d", true⟩, ⟨"d", true⟩]
    ∃ once, expand 1 inner = .ok once ∧ (∀ i < 6, row[i]? = once[i % once.length]?) ∧
      ∃ start, expand 1 (.elementCount inner (.times 5)) = .ok start ∧ start <+: row := by
  intro inner row
  have h : expand 1 (.elementCount inner (.times 6)) = .ok row := by decide
  have hinner : expand 1 inner = .ok [⟨"d", true⟩, ⟨"d", true⟩, ⟨"h", false⟩, ⟨"d", true⟩] := by decide
  obtain ⟨once, honce, -, hrow, hprefix⟩ := expand_elementCount h
  have hne : once ≠ [] := by
    rw [hinner] at honce
    cases honce
    simp
  exact ⟨once, honce, (hrow hne).2, hprefix 5 (by decide)⟩

end Pattern

end Rosette
