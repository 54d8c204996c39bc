import Rosette.Proofs.Pattern.Rows

/-!
# Mirrored patterns

A pattern is reversed part by part: the members of each sequence and the patterns of each counted call come in reverse
order, the count stays where it was. Rows are put together in ways that reversal goes through, as copies of a row and
gaps between rows are the same from both ends. So the reversed pattern has the reversed row
(`expandAt_reversed_of_eq_ok`). The other direction costs nothing, as what is reversed twice is as before
(`reversed_reversed`).

Main result: `expand_reversed`.
-/

namespace Rosette

/-- A list in reverse order, but for its last member. -/
def initReversed {α : Type} (l : List α) : List α := l.dropLast.reverse ++ l.getLast?.toList

theorem initReversed_concat {α : Type} (l : List α) (a : α) : initReversed (l ++ [a]) = l.reverse ++ [a] := by
  rw [initReversed, List.dropLast_concat, List.getLast?_concat, Option.toList_some]

theorem initReversed_initReversed {α : Type} (l : List α) : initReversed (initReversed l) = l := by
  obtain rfl | ⟨l, a, rfl⟩ := l.eq_nil_or_concat'
  · rfl
  · rw [initReversed_concat, initReversed_concat, List.reverse_reverse]

theorem map_initReversed {α β : Type} (f : α → β) (l : List α) : initReversed (l.map f) = (initReversed l).map f := by
  obtain rfl | ⟨l, a, rfl⟩ := l.eq_nil_or_concat'
  · rfl
  · rw [List.map_append, List.map_singleton, initReversed_concat, initReversed_concat, List.map_append,
      List.map_reverse, List.map_singleton]

theorem mem_initReversed {α : Type} {l : List α} {a : α} : a ∈ initReversed l ↔ a ∈ l := by
  obtain rfl | ⟨l, b, rfl⟩ := l.eq_nil_or_concat'
  · rfl
  · rw [initReversed_concat, List.mem_append, List.mem_append, List.mem_reverse]

theorem intercalate_concat {α : Type} (sep : List α) (rows : List (List α)) (row : List α) (h : rows ≠ []) :
    sep.intercalate (rows ++ [row]) = sep.intercalate rows ++ (sep ++ row) := by
  induction rows with
  | nil => exact absurd rfl h
  | cons first rows ih =>
    cases rows with
    | nil => simp [List.intercalate]
    | cons second rows =>
      rw [List.cons_append, List.cons_append, List.intercalate_cons_cons, ← List.cons_append, ih (by simp),
        List.intercalate_cons_cons]
      simp only [List.append_assoc]

theorem reverse_intercalate {α : Type} (sep : List α) (rows : List (List α)) :
    (sep.intercalate rows).reverse = sep.reverse.intercalate (rows.map List.reverse).reverse := by
  induction rows with
  | nil => rfl
  | cons row rows ih =>
    cases rows with
    | nil => simp [List.intercalate]
    | cons second rows =>
      rw [List.intercalate_cons_cons, List.map_cons, List.reverse_cons, intercalate_concat _ _ _ (by simp), ← ih]
      simp only [List.reverse_append, List.append_assoc]

namespace Pattern

open Expansion

variable {limit : Int} {depth : Nat} {p q : Pattern} {ps args : List Pattern} {n : Count} {row row' : List Stroke}
  {rows : List (List Stroke)}

/-! ## Patterns in reverse -/

mutual

/-- A pattern with the members of each sequence, and the patterns of each counted call, in reverse order. -/
def reversed : Pattern → Pattern
  | .sequence ps n => .sequence (reversedEach ps).reverse n
  | .command name args n =>
    if name = CommandRule.seq.name ∨ name = CommandRule.space.name then
      .command name (initReversed (reversedEach args)) n
    else .command name (reversedEach args) n
  | .elementCount p n => .elementCount (reversed p) n
  | p => p

/-- Patterns that are each reversed, in their order. -/
def reversedEach : List Pattern → List Pattern
  | [] => []
  | p :: ps => reversed p :: reversedEach ps

end

theorem reversedEach_eq_map (ps : List Pattern) : reversedEach ps = ps.map reversed := by
  induction ps with
  | nil => rfl
  | cons p ps ih => rw [reversedEach, ih, List.map_cons]

theorem map_reversed_reversed (h : ∀ p ∈ ps, p.reversed.reversed = p) : (ps.map reversed).map reversed = ps := by
  rw [List.map_map]
  exact (List.map_congr_left h).trans (List.map_id ps)

/-- **What is reversed twice is as before.** -/
theorem reversed_reversed (p : Pattern) : p.reversed.reversed = p := by
  induction p using part_induction with
  | symbol | reference | other => rfl
  | sequence ps n ih =>
    simp only [reversed, reversedEach_eq_map, List.map_reverse, map_reversed_reversed ih, List.reverse_reverse]
  | command name args n ih =>
    by_cases hname : name = CommandRule.seq.name ∨ name = CommandRule.space.name
    · simp only [reversed, if_pos hname, reversedEach_eq_map, ← map_initReversed, map_reversed_reversed ih,
        initReversed_initReversed]
    · simp only [reversed, if_neg hname, reversedEach_eq_map, map_reversed_reversed ih]
  | elementCount p n ih => rw [reversed, reversed, ih]

/-- A pattern that is tiled nowhere. -/
inductive Untiled : Pattern → Prop where
  | symbol {char : String} {rotated : Bool} {n : Count} : Untiled (.symbol char rotated n)
  | sequence {ps : List Pattern} {n : Count} (each : ∀ p ∈ ps, Untiled p) : Untiled (.sequence ps n)
  | command {name : String} {args : List Pattern} {n : Count} (each : ∀ p ∈ args, Untiled p) :
      Untiled (.command name args n)
  | reference {name : String} : Untiled (.reference name)
  | other {v : Value} : Untiled (.other v)

theorem Untiled.reversed (h : Untiled p) : Untiled p.reversed := by
  have heach : ∀ {ps : List Pattern}, (∀ p ∈ ps, Untiled p.reversed) → ∀ q ∈ ps.map Pattern.reversed, Untiled q := by
    intro ps hps q hq
    obtain ⟨p, hp, rfl⟩ := List.mem_map.1 hq
    exact hps p hp
  induction h with
  | symbol => exact .symbol
  | sequence _ ih =>
    rw [Pattern.reversed, reversedEach_eq_map]
    exact .sequence fun q hq => heach ih q (List.mem_reverse.1 hq)
  | command _ ih =>
    rw [Pattern.reversed, reversedEach_eq_map]
    split
    · exact .command fun q hq => heach ih q (mem_initReversed.1 hq)
    · exact .command (heach ih)
  | reference => exact .reference
  | other => exact .other

/-! ## Rows in reverse -/

theorem reverse_flatten_replicate (k : Nat) (row : List Stroke) :
    (List.replicate k row).flatten.reverse = (List.replicate k row.reverse).flatten := by
  rw [List.reverse_flatten, List.map_replicate, List.reverse_replicate]

theorem counted_reverse (h : counted n row = .ok row') : counted n row.reverse = .ok row'.reverse := by
  obtain ⟨k, rfl, hk⟩ := exists_copies_of_counted h
  rw [hk, reverse_flatten_replicate]

theorem reverse_of_counted_singleton {s : Stroke} (h : counted n [s] = .ok row) : row.reverse = row := by
  have hreverse := counted_reverse h
  rw [List.reverse_singleton, h, Except.ok.injEq] at hreverse
  exact hreverse.symm

/-- What puts rows together puts the reversed rows together, from behind, to the reversed row. -/
theorem gathered_reverse {rule : CommandRule} (h : gathered rule n rows = .ok row) :
    gathered rule n (rows.map List.reverse).reverse = .ok row.reverse := by
  unfold gathered at *
  by_cases hrule : rule = .seq
  · rw [if_pos hrule] at h ⊢
    rw [← List.reverse_flatten]
    exact counted_reverse h
  · rw [if_neg hrule] at h ⊢
    obtain ⟨gap, hgap, rfl⟩ := map_eq_ok.1 h
    rw [hgap, reverse_intercalate, reverse_of_counted_singleton hgap]
    rfl

theorem countOf_reversed (p : Pattern) : countOf p.reversed = countOf p := by
  cases p with
  | symbol | sequence | elementCount | reference | other => rfl
  | command =>
    rw [reversed]
    split <;> rfl

theorem expandEach_reversed
    (h : List.Forall₂ (fun p row => expandAt limit depth p.reversed = .ok row.reverse) ps rows) :
    expandEach limit depth (ps.map reversed).reverse = .ok (rows.map List.reverse).reverse := by
  rw [expandEach_eq_ok, List.forall₂_reverse_iff, List.forall₂_map_left_iff, List.forall₂_map_right_iff]
  exact h

/-! ## The row of a pattern in reverse -/

theorem expandAt_reversed_of_eq_ok (hp : Untiled p) (h : expandAt limit depth p = .ok row) :
    expandAt limit depth p.reversed = .ok row.reverse := by
  refine row_induction (motive := fun depth p row => Untiled p → expandAt limit depth p.reversed = .ok row.reverse)
    ?symbol ?sequence ?mirrored ?gathered ?tiled h hp
  case symbol =>
    intro depth p char rotated n row hp hletter hrow _
    have hsame : p.reversed = p := by
      cases p with
      | symbol | other => rfl
      | sequence | command | elementCount | reference => cases hp
    rw [hsame, reverse_of_counted_singleton hrow]
    exact (expandAt_symbol_eq_ok hp).2 ⟨hletter, hrow⟩
  case sequence =>
    intro depth ps n rows row hlimit hrows hrow hp
    cases hp with
    | sequence each =>
      have hmembers := expandEach_reversed (forall₂_of_mem hrows fun p hp _ ih => ih (each p hp))
      rw [reversed, reversedEach_eq_map]
      refine expandAt_sequence_eq_ok.2 ⟨hlimit, _, hmembers, ?_⟩
      rw [← List.reverse_flatten]
      exact counted_reverse hrow
  case mirrored =>
    intro depth p m row hlimit ih hp
    cases hp with
    | command each =>
      rw [reversed, if_neg (by decide)]
      exact expandAt_mirrored_eq_ok.2 ⟨hlimit, _, ih (each p List.mem_cons_self), rfl⟩
  case gathered =>
    intro depth rule ps q m n rows row hrule hlimit hn hrows hrow hp
    cases hp with
    | command each =>
      have hname : rule.name = CommandRule.seq.name ∨ rule.name = CommandRule.space.name :=
        hrule.imp (congrArg _) (congrArg _)
      have hpatterns := expandEach_reversed
        (forall₂_of_mem hrows fun p hp _ ih => ih (each p (List.mem_append_left _ hp)))
      -- the last argument stays the last one, and says the same count
      have hcount : countArgument rule ((ps.map reversed).reverse ++ [q.reversed]) = .ok n := by
        rw [countArgument_concat_eq_ok, List.length_reverse, List.length_map, countOf_reversed]
        exact countArgument_concat_eq_ok.1 hn
      rw [reversed, if_pos hname, reversedEach_eq_map, List.map_append, List.map_singleton, initReversed_concat]
      exact (expandAt_counted_eq_ok hrule).2 ⟨hlimit, n, _, hcount, hpatterns, gathered_reverse hrow⟩
  case tiled =>
    intro depth p n inner row _ _ hp
    cases hp

/-- A pattern is mirrored one level further down. -/
theorem expand_mirrored_eq_ok_iff :
    expand limit (.command CommandRule.mir.name [p] n) = .ok row ↔
      (p.nesting : Int) + 1 ≤ limit ∧ expand limit p = .ok row.reverse := by
  rw [expand, expandAt_mirrored_eq_ok]
  constructor
  · rintro ⟨hlimit, row, hrow, rfl⟩
    obtain ⟨hfits, hmoved⟩ := settles_of_expandAt hrow
    have hroom : (p.nesting : Int) + 1 ≤ limit := by
      unfold Fits at hfits
      omega
    rw [List.reverse_reverse]
    exact ⟨hroom, hmoved limit 0 (.inr (by omega))⟩
  · rintro ⟨hroom, hrow⟩
    have hinside := (settles_of_expandAt hrow).2 limit 1 (.inr (by omega))
    exact ⟨by omega, row.reverse, hinside, (List.reverse_reverse row).symm⟩

/-- **Mirroring turns rows around.** If nothing in a pattern is tiled, the pattern in reverse has a row exactly if the
pattern has one, and then it is the reversed row. So it is the row of the mirrored pattern, which needs one level
more. -/
theorem expand_reversed (h : Untiled p) (limit : Int) :
    ((∃ row, expand limit p.reversed = .ok row) ↔ ∃ row, expand limit p = .ok row) ∧
      (∀ row, expand limit p.reversed = .ok row ↔ expand limit p = .ok row.reverse) ∧
      ∀ n row, expand limit (.command CommandRule.mir.name [p] n) = .ok row ↔
        (p.nesting : Int) + 1 ≤ limit ∧ expand limit p.reversed = .ok row := by
  have hiff : ∀ row, expand limit p.reversed = .ok row ↔ expand limit p = .ok row.reverse := by
    refine fun row => ⟨fun hrow => ?_, fun hrow => ?_⟩
    · have htwice := expandAt_reversed_of_eq_ok h.reversed hrow
      rwa [reversed_reversed] at htwice
    · have honce := expandAt_reversed_of_eq_ok h hrow
      rwa [List.reverse_reverse] at honce
  refine ⟨⟨fun ⟨row, hrow⟩ => ⟨_, (hiff row).1 hrow⟩, fun ⟨row, hrow⟩ => ⟨row.reverse, ?_⟩⟩, hiff, fun n row => ?_⟩
  · rwa [hiff, List.reverse_reverse]
  · rw [expand_mirrored_eq_ok_iff, hiff]

theorem expand_reversed_space :
    ∃ p : Pattern, Untiled p ∧ expand 2 p = .ok [⟨"d", true⟩, ⟨"h", false⟩, ⟨"x", false⟩, ⟨"v", false⟩] ∧
      expand 2 p.reversed = .ok [⟨"v", false⟩, ⟨"x", false⟩, ⟨"h", false⟩, ⟨"d", true⟩] ∧
      expand 3 (.command CommandRule.mir.name [p] .absent) =
        .ok [⟨"v", false⟩, ⟨"x", false⟩, ⟨"h", false⟩, ⟨"d", true⟩] := by
  let word : Pattern := .sequence [.symbol "d" true .absent, .symbol "h" false .absent] .absent
  let p : Pattern :=
    .command CommandRule.space.name [word, .symbol "v" false .absent, .symbol "x" false (.times 1)] .absent
  have hword : Untiled word := .sequence (by simp [Untiled.symbol])
  have hp : Untiled p := .command (by simp [hword, Untiled.symbol])
  obtain ⟨-, htwo, -⟩ := expand_reversed hp 2
  obtain ⟨-, hthree, hmirrored⟩ := expand_reversed hp 3
  exact ⟨p, hp, by decide, (htwo _).2 (by decide), (hmirrored _ _).2 ⟨by decide, (hthree _).2 (by decide)⟩⟩

end Pattern

end Rosette
