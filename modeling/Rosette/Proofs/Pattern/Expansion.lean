import Rosette.Proofs.Pattern.Unrolling

/-!
# How an expansion fails

An expansion of a pattern without bare values fails in three ways only: a part of the pattern has no meaning as strokes,
the pattern nests deeper than the limit, or one of its counts does not fit into a word (`Expansion.Fault.Arises`). Which
counts a pattern has is kept as a property of all of them (`AllCounts`), as a count may come to the top from any depth.
A count that the expansion makes up by itself is 1, and fits.

Main result: `AllCounts.arises`.
-/

namespace Rosette

/-- A count that is none, or a natural number with the property. -/
def Count.Among (P : Nat → Prop) (n : Count) : Prop := n = .absent ∨ ∃ k : Nat, n = .times k ∧ P k

theorem Count.Among.imp {P Q : Nat → Prop} {n : Count} (h : n.Among P) (hPQ : ∀ k, P k → Q k) : n.Among Q := by
  obtain rfl | ⟨k, rfl, hk⟩ := h
  · exact .inl rfl
  · exact .inr ⟨k, rfl, hPQ k hk⟩

namespace Repetition

/-- A part of a count that fits into a word fits too. -/
theorem fits_of_le {m n : Int} (hm : 0 ≤ m) (hle : m ≤ n) (hn : fits n = true) : fits m = true := by
  simp only [fits, Bool.and_eq_true, decide_eq_true_eq] at hn ⊢
  omega

/-- Only a count that does not fit into a word cannot be shared out. -/
theorem fits_of_tile?_eq_none {α : Type} {k : Nat} {l : List α} (h : tile? (k : Int) l = none) :
    fits (k : Int) = false := by
  unfold tile? at h
  split at h
  · cases h
  · rw [Option.map_eq_none_iff, copies?, ite_eq_right_iff] at h
    have hquotient : (k : Int).fdiv l.length = ((k / l.length : Nat) : Int) := by
      rw [Int.fdiv_eq_ediv_of_nonneg _ (by omega), Int.natCast_ediv]
    have hle : k / l.length ≤ k := Nat.div_le_self _ _
    rw [hquotient] at h
    by_contra hk
    rw [Bool.not_eq_false] at hk
    exact nomatch h (fits_of_le (Int.natCast_nonneg _) (Int.ofNat_le.2 hle) hk)

end Repetition

namespace Pattern

open Expansion

variable {P : Nat → Prop} {Q : Expansion.Fault → Prop} {α β : Type} {r : Except Expansion.Fault α} {p : Pattern}
  {ps : List Pattern} {n : Count} {limit : Int} {depth levels : Nat} {row : List Stroke} {place : Place}

/-- A pattern without bare values, all of whose counts are natural numbers with the property. -/
inductive AllCounts (P : Nat → Prop) : Pattern → Prop where
  | symbol {char : String} {rotated : Bool} {n : Count} (hn : n.Among P) : AllCounts P (.symbol char rotated n)
  | sequence {ps : List Pattern} {n : Count} (each : ∀ p ∈ ps, AllCounts P p) (hn : n.Among P) :
      AllCounts P (.sequence ps n)
  | command {name : String} {args : List Pattern} {n : Count} (each : ∀ p ∈ args, AllCounts P p) (hn : n.Among P) :
      AllCounts P (.command name args n)
  | elementCount {p : Pattern} {k : Nat} (h : AllCounts P p) (hk : P k) : AllCounts P (.elementCount p (.times k))
  | reference {name : String} : AllCounts P (.reference name)

theorem Legible.allCounts (h : Legible place p) : AllCounts (fun k => Numeral.fits k = true) p := by
  induction h with
  | letter h =>
    obtain ⟨_, _, _, heq, -, hn⟩ := h
    cases heq
    exact .symbol hn
  | mute => exact .symbol (.inl rfl)
  | sequence ne each hn ih => exact .sequence ih hn
  | command hname each hn ih => exact .command ih hn
  | reference => exact .reference

theorem LegibleRoot.allCounts (h : LegibleRoot p) : AllCounts (fun k => Numeral.fits k = true) p := by
  obtain h | ⟨q, k, rfl, h, hk⟩ := h
  · exact h.allCounts
  · exact .elementCount h.allCounts hk

/-! ## Faults -/

namespace Expansion

/-- Whether a fault tells that a part of a pattern has no meaning as strokes. -/
def Fault.isRefusal : Fault → Bool
  | .tooDeep _ | .overflow | .misfit _ => false
  | _ => true

/-- How a fault comes about at `depth` in a pattern of so many levels, whose counts have the property. -/
inductive Fault.Arises (P : Nat → Prop) (limit : Int) (depth levels : Nat) : Fault → Prop where
  | refused {f : Fault} (refusal : f.isRefusal = true) : Arises P limit depth levels f
  | deep (full : ¬ Fits limit depth levels) : Arises P limit depth levels (.tooDeep limit)
  | overflow {k : Nat} (hk : P k) (large : Repetition.fits k = false) : Arises P limit depth levels .overflow

/-- Whether a run fails with faults of a kind only. -/
def FailsWith (Q : Fault → Prop) (r : Except Fault α) : Prop := ∀ f, r = .error f → Q f

theorem failsWith_ok (a : α) : FailsWith Q (.ok a) := fun _ h => nomatch h

theorem failsWith_error {f : Fault} (hf : Q f) : FailsWith Q (.error f : Except Fault α) := by
  rintro _ ⟨⟩
  exact hf

theorem FailsWith.bind {g : α → Except Fault β} (hr : FailsWith Q r) (hg : ∀ a, r = .ok a → FailsWith Q (g a)) :
    FailsWith Q (r >>= g) := by
  cases r with
  | error f => exact failsWith_error (hr f rfl)
  | ok a => exact hg a rfl

theorem FailsWith.mono {R : Fault → Prop} (hr : FailsWith Q r) (h : ∀ f, Q f → R f) : FailsWith R r :=
  fun f hf => h f (hr f hf)

/-- What goes wrong deeper in a pattern goes wrong in the pattern. -/
theorem Fault.Arises.inside {f : Fault} {inner : Nat} (h : f.Arises P limit (depth + 1) inner)
    (hle : inner ≤ levels) : f.Arises P limit depth (levels + 1) := by
  cases h with
  | refused refusal => exact .refused refusal
  | deep full => exact .deep fun hfits => full (by unfold Fits at *; omega)
  | overflow hk large => exact .overflow hk large

end Expansion

/-! ## Counts -/

theorem failsWith_repeated {k : Nat} (hk : Repetition.fits k = false → P k) :
    FailsWith (Fault.Arises P limit depth levels) (repeated k row) := by
  unfold repeated Repetition.copies?
  cases hfits : Repetition.fits (k : Int) with
  | true => exact failsWith_ok _
  | false => exact failsWith_error (.overflow (hk hfits) hfits)

theorem failsWith_counted (hn : n.Among fun k => Repetition.fits k = false → P k) :
    FailsWith (Fault.Arises P limit depth levels) (counted n row) := by
  obtain rfl | ⟨k, rfl, hk⟩ := hn
  · exact failsWith_ok _
  · exact failsWith_repeated hk

theorem failsWith_tiled {k : Nat} (hk : P k) :
    FailsWith (Fault.Arises P limit depth levels) (tiled (.times k) row) := by
  unfold tiled Count.number?
  dsimp only
  split
  · rename_i htile
    exact failsWith_error (.overflow hk (Repetition.fits_of_tile?_eq_none htile))
  · exact failsWith_ok _

theorem failsWith_symbolRow {char : String} {rotated : Bool} (hn : n.Among P) :
    FailsWith (Fault.Arises P limit depth levels) (symbolRow char rotated n) := by
  unfold symbolRow
  split
  · exact failsWith_error (.refused rfl)
  · split
    · exact failsWith_counted (hn.imp fun _ hk _ => hk)
    · exact failsWith_error (.refused rfl)

/-- The count that an argument gives is its own or 1. -/
theorem AllCounts.countOf (h : AllCounts P p) : (countOf p).Among fun k => Repetition.fits k = false → P k := by
  cases h with
  | @symbol char rotated n hn =>
    obtain rfl | ⟨k, rfl, hk⟩ := hn
    · unfold Expansion.countOf
      simp only [symbol?]
      split
      · exact .inr ⟨1, rfl, fun hone => absurd hone (by decide)⟩
      · exact .inl rfl
    · exact .inr ⟨k, rfl, fun _ => hk⟩
  | sequence | command | elementCount | reference => exact .inl rfl

theorem failsWith_countArgument (rule : CommandRule) (args : List Pattern) :
    FailsWith (Fault.Arises P limit depth levels) (countArgument rule args) := by
  unfold countArgument
  split
  · dsimp only
    split
    · exact failsWith_ok _
    · exact failsWith_error (.refused rfl)
  · exact failsWith_error (.refused rfl)

theorem among_of_countArgument {rule : CommandRule} (each : ∀ p ∈ ps, AllCounts P p)
    (h : countArgument rule ps = .ok n) : n.Among fun k => Repetition.fits k = false → P k := by
  unfold countArgument at h
  split at h
  · dsimp only at h
    split at h
    · cases h
      cases hlast : ps.getLast? with
      | none => exact .inl rfl
      | some p => exact (each p (List.mem_of_getLast? hlast)).countOf
    · cases h
  · cases h

/-! ## Patterns -/

theorem failsWith_expandEach (h : ∀ p ∈ ps, FailsWith Q (expandAt limit depth p)) :
    FailsWith Q (expandEach limit depth ps) := by
  induction ps with
  | nil => exact failsWith_ok _
  | cons p ps ih =>
    rw [List.forall_mem_cons] at h
    exact h.1.bind fun _ _ => (ih h.2).bind fun _ _ => failsWith_ok _

theorem failsWith_expandInit (h : ∀ p ∈ ps, FailsWith Q (expandAt limit depth p)) :
    FailsWith Q (expandInit limit depth ps) := by
  induction ps using List.reverseRecOn with
  | nil => exact failsWith_ok _
  | append_singleton ps q _ =>
    rw [expandInit_concat]
    exact failsWith_expandEach fun p hp => h p (List.mem_append_left _ hp)

theorem nesting_le_nestingEach (hp : p ∈ ps) : p.nesting ≤ nestingEach ps := by
  induction ps with
  | nil => cases hp
  | cons q ps ih =>
    rw [nestingEach]
    rcases List.mem_cons.1 hp with rfl | hp
    · exact Nat.le_max_left _ _
    · exact (ih hp).trans (Nat.le_max_right _ _)

/-- Where the limit is reached there is no room for one more level. -/
theorem arises_of_full (hlt : limit < (depth : Int) + 1) :
    Fault.Arises P limit depth (levels + 1) (.tooDeep limit) := by
  refine .deep fun hfits => ?_
  rw [fits_succ] at hfits
  omega

/-- What a part fails with, the whole may fail with. -/
theorem failsWith_inside (h : FailsWith (Fault.Arises P limit (depth + 1) p.nesting) r) (hp : p ∈ ps) :
    FailsWith (Fault.Arises P limit depth (nestingEach ps + 1)) r :=
  h.mono fun _ hf => hf.inside (nesting_le_nestingEach hp)

theorem failsWith_command {name : String} (each : ∀ p ∈ ps, AllCounts P p)
    (h : ∀ p ∈ ps, FailsWith (Fault.Arises P limit depth (nestingEach ps + 1)) (expandAt limit (depth + 1) p)) :
    FailsWith (Fault.Arises P limit depth (nestingEach ps + 1)) (expandAt limit depth (.command name ps n)) := by
  have hcounted : ∀ {k} {row : List Stroke} (rule : CommandRule), countArgument rule ps = .ok k →
      FailsWith (Fault.Arises P limit depth (nestingEach ps + 1)) (counted k row) := by
    intro k row rule hk
    exact failsWith_counted (among_of_countArgument each hk)
  rw [expandAt]
  split
  · exact failsWith_error (arises_of_full ‹_›)
  split
  · -- a repetition looks at its count, expands its patterns and repeats them
    exact (failsWith_countArgument _ _).bind fun _ hk => (failsWith_expandInit h).bind fun _ _ => hcounted _ hk
  split
  · split
    · exact (failsWith_expandEach h).bind fun _ _ => failsWith_ok _
    · exact failsWith_error (.refused rfl)
  split
  · -- a spacing repeats its gap before it expands its patterns
    exact (failsWith_countArgument _ _).bind fun _ hk => (hcounted _ hk).bind fun _ _ =>
      (failsWith_expandInit h).bind fun _ _ => failsWith_ok _
  · exact failsWith_error (.refused rfl)

/-- **How an expansion fails**: by a part without a meaning, by its depth, or by a count. -/
theorem AllCounts.arises (h : AllCounts P p) (limit : Int) (depth : Nat) :
    FailsWith (Fault.Arises P limit depth p.nesting) (expandAt limit depth p) := by
  induction h generalizing depth with
  | symbol hn => exact failsWith_symbolRow hn
  | @sequence ps n each hn ih =>
    rw [expandAt, nesting]
    split
    · exact failsWith_error (arises_of_full ‹_›)
    · have hps := failsWith_expandEach fun p hp => failsWith_inside (ih p hp (depth + 1)) hp
      exact hps.bind fun _ _ => failsWith_counted (hn.imp fun _ hk _ => hk)
  | command each hn ih =>
    rw [nesting]
    exact failsWith_command each fun p hp => failsWith_inside (ih p hp (depth + 1)) hp
  | elementCount h hk ih =>
    rw [expandAt, nesting]
    exact (ih depth).bind fun _ _ => failsWith_tiled hk
  | reference => exact failsWith_error (.refused rfl)

end Pattern

end Rosette
