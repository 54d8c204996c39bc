import Rosette.Pattern.Expander
import Rosette.Proofs.Pattern.Depth
import Rosette.Proofs.Pattern.Rows

/-!
# Expanders count what they are in

The count of an expander is the number of levels it is in, at each pattern it comes to: what it gives there is the row
of the pattern at that depth, and afterwards the count is as before, but for the level that was refused if one was
(`Counts`, `counts_rowOf`). A call starts anew, so nothing of an earlier one is left.

Main result: `calls_eq_map_call`.
-/

namespace Rosette.Pattern.Expander

open Expansion

variable {α β : Type} {limit : Int} {depth : Nat} {row : List Stroke} {p : Pattern} {n : Count}

/-- How many levels are still counted after a run with such an outcome: the one that was refused. -/
def stillCounted : Except Expansion.Fault α → Nat
  | .error (.tooDeep _) => 1
  | _ => 0

/-- Inside so many levels a computation comes to an outcome, and counts none afterwards but one that was refused. -/
def Counts (x : Counting α) (depth : Nat) (r : Except Expansion.Fault α) : Prop :=
  x.run.run depth = (r, depth + stillCounted r)

/-! ## Steps -/

theorem stillCounted_of_shallow {r : Except Expansion.Fault α} (h : Shallow r) : stillCounted r = 0 := by
  unfold stillCounted
  split
  · exact absurd rfl (h _)
  · rfl

/-- What is no matter of depth leaves the count alone. -/
theorem counts_of_shallow {r : Except Expansion.Fault α} (h : Shallow r) : Counts (liftM r) depth r := by
  rw [Counts, stillCounted_of_shallow h]
  rfl

theorem counts_pure (a : α) : Counts (pure a) depth (.ok a) := rfl

theorem Counts.bind {x : Counting α} {f : α → Counting β} {r : Except Expansion.Fault α}
    {g : α → Except Expansion.Fault β} (hx : Counts x depth r) (hf : ∀ a, Counts (f a) depth (g a)) :
    Counts (x >>= f) depth (r >>= g) := by
  unfold Counts at *
  rw [ExceptT.run_bind, StateT.run_bind, hx]
  cases r with
  | ok a => exact hf a
  | error f => cases f <;> rfl

theorem run_inLevel (x : Counting α) :
    (inLevel limit x).run.run depth =
      if limit < (depth : Int) + 1 then (.error (.tooDeep limit), depth + 1)
      else ((x.run.run (depth + 1)).1, (x.run.run (depth + 1)).2 - 1) := by
  have hraised : (inLevel limit x).run.run depth =
      (if limit < (depth : Int) + 1 then throw (.tooDeep limit) else tryFinally x (modify (· - 1)) :
        Counting α).run.run (depth + 1) := rfl
  rw [hraised]
  split
  · rfl
  · dsimp only [tryFinally, tryFinally', ExceptT.run, ExceptT.mk, StateT.run, bind, StateT.bind, Functor.map,
      ExceptT.map]
    rcases x (depth + 1) with ⟨_ | _, _⟩ <;> rfl

/-- A level is left whatever happens inside, unless it is refused. -/
theorem Counts.inLevel {x : Counting α} {r : Except Expansion.Fault α}
    (h : (depth : Int) + 1 ≤ limit → Counts x (depth + 1) r) :
    Counts (inLevel limit x) depth (if limit < (depth : Int) + 1 then .error (.tooDeep limit) else r) := by
  rw [Counts, run_inLevel]
  split
  · rfl
  · rw [h (by omega), Nat.add_right_comm, Nat.add_sub_cancel]

/-! ## What is no matter of depth -/

theorem shallow_error {f : Expansion.Fault} (h : ∀ m, f ≠ .tooDeep m) : Shallow (.error f : Except Expansion.Fault α) :=
  fun m hm => h m (Except.error.inj hm)

theorem shallow_ok (a : α) : Shallow (.ok a : Except Expansion.Fault α) := fun _ h => nomatch h

theorem shallow_repeated {k : Int} : Shallow (repeated k row) := by
  unfold repeated
  split
  · exact shallow_error (by simp)
  · exact shallow_ok _

theorem shallow_counted : Shallow (counted n row) := by
  unfold counted
  split
  · exact shallow_ok _
  · exact shallow_repeated
  · split
    · exact shallow_repeated
    · exact shallow_error (by simp)

theorem shallow_tiled : Shallow (tiled n row) := by
  unfold tiled
  split
  · split
    · exact shallow_error (by simp)
    · exact shallow_ok _
  · split
    · exact shallow_ok _
    · exact shallow_error (by simp)

theorem shallow_symbolRow {char : String} {rotated : Bool} : Shallow (symbolRow char rotated n) := by
  unfold symbolRow
  split
  · exact shallow_error (by simp)
  · split
    · exact shallow_counted
    · exact shallow_error (by simp)

theorem shallow_countArgument {rule : CommandRule} {args : List Pattern} : Shallow (countArgument rule args) := by
  unfold countArgument
  dsimp only
  split
  · split
    · exact shallow_ok _
    · exact shallow_error (by simp)
  · exact shallow_error (by simp)

/-- A value is refused for its depth where it is a level without room, and nowhere else. -/
theorem valueRow_cases (limit : Int) (depth : Nat) (v : Value) :
    (∃ f : Expansion.Fault, isLevel v = true ∧ (∀ m, f ≠ .tooDeep m) ∧
        valueRow limit depth v = if limit < (depth : Int) + 1 then .error (.tooDeep limit) else .error f) ∨
      isLevel v = false ∧ Shallow (valueRow limit depth v) := by
  cases hlevel : isLevel v with
  | true =>
    unfold isLevel at hlevel
    split at hlevel
    · exact .inl ⟨_, rfl, by simp, apply_ite Except.error _ _ _⟩
    · refine .inl ⟨_, rfl, fun m => ?_, apply_ite Except.error _ _ _⟩
      split <;> simp
    · cases hlevel
  | false =>
    refine .inr ⟨rfl, ?_⟩
    unfold valueRow
    split
    · exact shallow_symbolRow
    · refine shallow_error fun m => ?_
      unfold valueFault
      split
      · simp
      · simp [isLevel] at hlevel
      · simp [isLevel] at hlevel
      · simp

/-! ## Patterns -/

mutual

/-- **The count is the depth.** Inside so many levels an expander gives the row of a pattern at that depth. -/
theorem counts_rowOf (limit : Int) (depth : Nat) (p : Pattern) :
    Counts (rowOf limit p) depth (expandAt limit depth p) := by
  match p with
  | .symbol char rotated count =>
    rw [rowOf, expandAt]
    exact counts_of_shallow shallow_symbolRow
  | .sequence ps n =>
    rw [rowOf, expandAt]
    exact .inLevel fun _ => (counts_rowsOf limit _ ps).bind fun rows => counts_of_shallow shallow_counted
  | .command name args n =>
    rw [rowOf, expandAt]
    refine .inLevel fun _ => ?_
    split
    · exact (counts_of_shallow shallow_countArgument).bind fun n => (counts_rowsOfInit limit _ args).bind fun rows =>
        counts_of_shallow shallow_counted
    split
    · split
      · exact (counts_rowsOf limit _ args).bind fun rows => counts_pure _
      · exact counts_of_shallow (shallow_error (by simp))
    split
    · exact (counts_of_shallow shallow_countArgument).bind fun n => (counts_of_shallow shallow_counted).bind fun gap =>
        (counts_rowsOfInit limit _ args).bind fun rows => counts_pure _
    · exact counts_of_shallow (shallow_error (by simp))
  | .elementCount p n =>
    rw [rowOf, expandAt]
    exact (counts_rowOf limit depth p).bind fun row => counts_of_shallow shallow_tiled
  | .reference name =>
    rw [rowOf, expandAt]
    exact counts_of_shallow (shallow_error (by simp))
  | .other v =>
    have hvalue : Counts
        (if isLevel v then inLevel limit (liftM (valueRow limit depth v)) else liftM (valueRow limit depth v))
        depth (valueRow limit depth v) := by
      obtain ⟨f, hlevel, hf, hrow⟩ | ⟨hlevel, hshallow⟩ := valueRow_cases limit depth v
      · rw [if_pos hlevel, hrow]
        refine .inLevel fun hroom => ?_
        rw [if_neg (by omega)]
        exact counts_of_shallow (shallow_error hf)
      · rw [if_neg (by simp [hlevel])]
        exact counts_of_shallow hshallow
    rw [rowOf, expandAt]
    exact hvalue

theorem counts_rowsOf (limit : Int) (depth : Nat) (ps : List Pattern) :
    Counts (rowsOf limit ps) depth (expandEach limit depth ps) := by
  match ps with
  | [] =>
    rw [rowsOf, expandEach]
    exact counts_pure []
  | p :: ps =>
    rw [rowsOf, expandEach]
    exact (counts_rowOf limit depth p).bind fun row => (counts_rowsOf limit depth ps).bind fun rows => counts_pure _

theorem counts_rowsOfInit (limit : Int) (depth : Nat) (ps : List Pattern) :
    Counts (rowsOfInit limit ps) depth (expandInit limit depth ps) := by
  match ps with
  | [] | [_] =>
    rw [rowsOfInit, expandInit]
    exact counts_pure []
  | p :: q :: ps =>
    rw [rowsOfInit, expandInit]
    exact (counts_rowOf limit depth p).bind fun row =>
      (counts_rowsOfInit limit depth (q :: ps)).bind fun rows => counts_pure _

end

/-! ## Calls -/

variable {e : Expander}

/-- **A call gives the row of the pattern**, in whatever state the expander is, and leaves it with no levels counted but
one that was refused. -/
theorem call_eq (e : Expander) (p : Pattern) :
    e.call p = (expand e.limit p, ⟨e.limit, stillCounted (expand e.limit p)⟩) := by
  have hrun := counts_rowOf e.limit 0 p
  rw [Counts, Nat.zero_add] at hrun
  rw [call, hrun]
  rfl

theorem calls_eq_map (e : Expander) (ps : List Pattern) : e.calls ps = ps.map (expand e.limit) := by
  induction ps generalizing e with
  | nil => rfl
  | cons p ps ih =>
    rw [calls, call_eq]
    dsimp only
    rw [ih, List.map_cons]

/-- **Expanders can be used again, and their limit is exact.** What an expander gives for patterns, called for one after
the other, is what a new one gives for each of them. It gives a row exactly if one with a limit out of reach gives it
and the pattern nests within the limit. -/
theorem calls_eq_map_call (hlimit : 0 ≤ e.limit) (ps : List Pattern) :
    e.calls ps = ps.map (fun p => (call ⟨e.limit, 0⟩ p).1) ∧
      ∀ (p : Pattern) (row : List Stroke) (high : Int), (p.nesting : Int) ≤ high →
        ((e.call p).1 = .ok row ↔ (call ⟨high, 0⟩ p).1 = .ok row ∧ (p.nesting : Int) ≤ e.limit) := by
  simp only [call_eq, calls_eq_map, true_and]
  intro p row high hhigh
  have hroom : Fits e.limit 0 p.nesting ↔ (p.nesting : Int) ≤ e.limit := by
    unfold Fits
    omega
  have hhigh' : Fits high 0 p.nesting := .inr (by omega)
  rw [expand, expand, expandAt_eq_ok_iff hhigh', hroom]

theorem calls_eq_map_call_refused :
    ∃ deep flat : Pattern, Expander.calls ⟨1, 0⟩ [deep, flat] = [.error (.tooDeep 1), .ok [⟨"d", true⟩, ⟨"h", false⟩]] ∧
      ∃ row, (call ⟨2, 0⟩ deep).1 = .ok row ∧ (call ⟨1, 0⟩ deep).1 ≠ .ok row := by
  let flat : Pattern := .sequence [.symbol "d" true .absent, .symbol "h" false .absent] .absent
  let deep : Pattern := .sequence [flat] .absent
  obtain ⟨hcalls, hexact⟩ := @calls_eq_map_call ⟨1, 0⟩ (by decide) [deep, flat]
  refine ⟨deep, flat, ?_, [⟨"d", true⟩, ⟨"h", false⟩], by decide, fun hrow => ?_⟩
  · rw [hcalls]
    decide
  · obtain ⟨-, hnesting⟩ := (hexact deep _ 2 (by decide)).1 hrow
    exact absurd hnesting (by decide)

end Rosette.Pattern.Expander
