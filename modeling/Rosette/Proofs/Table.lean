import Mathlib.Data.List.Induction
import Mathlib.Data.List.Nodup
import Rosette.Table

/-!
# Tables made from lists

No name occurs twice in a table made by writing (`nodup_ofList`), and a list in which none does is the table made
from it (`ofList_eq_self`). Writing to a table and merging it into another comes to the same as writing behind the merge
(`put_merge`).
-/

namespace Rosette.Table

variable {α : Type} {t : Table α} {k : String} {v : α}

/-- A member of a list in which no name occurs twice is found by its name. -/
theorem lookup_eq_some_of_mem (h : (t.map Prod.fst).Nodup) (hmem : (k, v) ∈ t) : t.lookup k = some v := by
  induction t with
  | nil => cases hmem
  | cons e t ih =>
    rw [List.map_cons, List.nodup_cons] at h
    rw [List.lookup_cons]
    rcases List.mem_cons.1 hmem with rfl | hmem
    · rw [beq_self_eq_true]
    · have hne : (k == e.1) = false := by
        rw [beq_eq_false_iff_ne]
        rintro rfl
        exact h.1 (List.mem_map.2 ⟨_, hmem, rfl⟩)
      rw [hne]
      exact ih h.2 hmem

theorem mem_put {e : String × α} (h : e ∈ put t k v) : e ∈ t ∨ e = (k, v) := by
  induction t with
  | nil => exact .inr (List.mem_singleton.1 h)
  | cons e' t ih =>
    obtain ⟨k', v'⟩ := e'
    by_cases hk : k' = k
    · rw [put, if_pos hk] at h
      rcases List.mem_cons.1 h with rfl | h
      · exact .inr rfl
      · exact .inl (List.mem_cons_of_mem _ h)
    · rw [put, if_neg hk] at h
      rcases List.mem_cons.1 h with rfl | h
      · exact .inl List.mem_cons_self
      · exact (ih h).imp_left (List.mem_cons_of_mem _)

theorem mem_keys_put {j : String} (h : j ∈ (put t k v).map Prod.fst) : j ∈ t.map Prod.fst ∨ j = k := by
  obtain ⟨e, he, rfl⟩ := List.mem_map.1 h
  rcases mem_put he with he | rfl
  · exact .inl (List.mem_map_of_mem he)
  · exact .inr rfl

theorem nodup_put (h : (t.map Prod.fst).Nodup) : ((put t k v).map Prod.fst).Nodup := by
  induction t with
  | nil => simp [put]
  | cons e t ih =>
    obtain ⟨k', v'⟩ := e
    rw [List.map_cons, List.nodup_cons] at h
    by_cases hk : k' = k
    · subst hk
      rw [put, if_pos rfl]
      exact List.nodup_cons.2 h
    · rw [put, if_neg hk, List.map_cons, List.nodup_cons]
      refine ⟨fun hmem => ?_, ih h.2⟩
      rcases mem_keys_put hmem with hmem | hmem
      · exact h.1 hmem
      · exact hk hmem

theorem put_append_of_not_mem (h : k ∉ t.map Prod.fst) (u : Table α) : put (t ++ u) k v = t ++ put u k v := by
  induction t with
  | nil => rfl
  | cons e t ih =>
    obtain ⟨k', v'⟩ := e
    rw [List.map_cons, List.mem_cons, not_or] at h
    rw [List.cons_append, put, if_neg (Ne.symm h.1), ih h.2, List.cons_append]

theorem put_of_not_mem (h : k ∉ t.map Prod.fst) : put t k v = t ++ [(k, v)] := by
  rw [← put, ← put_append_of_not_mem h, List.append_nil]

variable {entries : List (String × α)}

/-- What writing one entry keeps, writing several keeps. -/
theorem foldl_put_induction {motive : Table α → Prop} (start : motive t)
    (step : ∀ (t : Table α) (e : String × α), e ∈ entries → motive t → motive (put t e.1 e.2)) :
    motive (entries.foldl (fun t e => put t e.1 e.2) t) := by
  induction entries generalizing t with
  | nil => exact start
  | cons e entries ih =>
    exact ih (step t e List.mem_cons_self start) fun t' e' he' => step t' e' (List.mem_cons_of_mem _ he')

theorem ofList_concat (entries : List (String × α)) (e : String × α) :
    ofList (entries ++ [e]) = put (ofList entries) e.1 e.2 := by
  simp [ofList]

/-- The last entry of a name counts. -/
theorem lookup_ofList (entries : List (String × α)) (k : String) :
    (ofList entries).lookup k = entries.reverse.lookup k := by
  induction entries using List.reverseRecOn with
  | nil => rfl
  | append_singleton entries e ih =>
    rw [ofList_concat, List.reverse_concat, List.lookup_cons]
    by_cases hk : k = e.1
    · subst hk
      rw [lookup_put_self, beq_self_eq_true]
    · rw [lookup_put_of_ne _ _ hk, beq_false_of_ne hk, ih]

/-- No name occurs twice in a table made from a list. -/
theorem nodup_ofList : ((ofList entries).map Prod.fst).Nodup :=
  foldl_put_induction (motive := fun t => (t.map Prod.fst).Nodup) (by simp) fun _ _ _ h => nodup_put h

theorem mem_of_mem_ofList {e : String × α} (h : e ∈ ofList entries) : e ∈ entries := by
  refine foldl_put_induction (motive := fun t => ∀ e ∈ t, e ∈ entries) (by simp) (fun t e' he' ht e he => ?_) e h
  rcases mem_put he with he | rfl
  · exact ht e he
  · exact he'

theorem foldl_put_of_nodup (h : ((t ++ entries).map Prod.fst).Nodup) :
    entries.foldl (fun t e => put t e.1 e.2) t = t ++ entries := by
  induction entries generalizing t with
  | nil => simp
  | cons e entries ih =>
    have hnot : e.1 ∉ t.map Prod.fst := by
      rw [List.map_append, List.map_cons, List.nodup_append] at h
      exact fun hmem => h.2.2 _ hmem _ List.mem_cons_self rfl
    rw [List.foldl_cons, put_of_not_mem hnot]
    rw [ih (by simpa using h)]
    simp

/-- A list in which no name occurs twice is the table made from it. -/
theorem ofList_eq_self (h : (entries.map Prod.fst).Nodup) : ofList entries = entries :=
  foldl_put_of_nodup (t := []) h

/-! ## Merging -/

/-- Two tables in one: the entries of the first in their places, but with the values of the second where it has any,
then the entries of the second under new names. -/
def merge (t u : Table α) : Table α :=
  t.map (fun e => (e.1, (u.lookup e.1).getD e.2)) ++ u.filter fun e => !(t.map Prod.fst).contains e.1

theorem merge_nil (t : Table α) : merge t [] = t := by
  simp [merge]

theorem put_append_of_mem (h : k ∈ t.map Prod.fst) (u : Table α) : put (t ++ u) k v = put t k v ++ u := by
  induction t with
  | nil => cases h
  | cons e t ih =>
    by_cases hk : e.1 = k
    · rw [List.cons_append, put, put, if_pos hk, if_pos hk, List.cons_append]
    · have ht : k ∈ t.map Prod.fst := (List.mem_cons.1 h).resolve_left (Ne.symm hk)
      rw [List.cons_append, put, put, if_neg hk, if_neg hk, ih ht, List.cons_append]

theorem filter_put_of_pos (keep : String → Bool) (hk : keep k = true) :
    (put t k v).filter (fun e => keep e.1) = put (t.filter fun e => keep e.1) k v := by
  induction t with
  | nil => simp [put, hk]
  | cons e t ih =>
    by_cases he : e.1 = k
    · simp [put, he, hk]
    · rw [put, if_neg he, List.filter_cons, List.filter_cons, ih]
      split
      · rw [put, if_neg he]
      · rfl

theorem filter_put_of_neg (keep : String → Bool) (hk : keep k = false) :
    (put t k v).filter (fun e => keep e.1) = t.filter fun e => keep e.1 := by
  induction t with
  | nil => simp [put, hk]
  | cons e t ih =>
    by_cases he : e.1 = k
    · simp [put, he, hk]
    · rw [put, if_neg he, List.filter_cons, List.filter_cons, ih]

/-- Where a name occurs once, writing to it changes the one value. -/
theorem put_map_of_mem {f : String × α → α} (h : (t.map Prod.fst).Nodup) (hk : k ∈ t.map Prod.fst) :
    put (t.map fun e => (e.1, f e)) k v = t.map fun e => (e.1, if e.1 = k then v else f e) := by
  induction t with
  | nil => cases hk
  | cons e t ih =>
    rw [List.map_cons, List.nodup_cons] at h
    rw [List.map_cons, List.map_cons, put]
    by_cases he : e.1 = k
    · subst he
      have hrest : ∀ e' ∈ t, e'.1 ≠ e.1 := fun e' he' heq => h.1 (heq ▸ List.mem_map_of_mem he')
      rw [if_pos rfl, if_pos rfl]
      exact congrArg _ (List.map_congr_left fun e' he' => by rw [if_neg (hrest e' he')])
    · rw [if_neg he, if_neg he, ih h.2 ((List.mem_cons.1 hk).resolve_left (Ne.symm he))]

theorem put_merge (h : (t.map Prod.fst).Nodup) (u : Table α) (k : String) (v : α) :
    put (merge t u) k v = merge t (put u k v) := by
  have hlookup : ∀ e : String × α,
      ((put u k v).lookup e.1).getD e.2 = if e.1 = k then v else (u.lookup e.1).getD e.2 := by
    intro e
    split
    · rename_i he
      rw [he, lookup_put_self, Option.getD_some]
    · rename_i he
      rw [lookup_put_of_ne _ _ he]
  unfold merge
  simp only [hlookup]
  by_cases hk : k ∈ t.map Prod.fst
  · rw [put_append_of_mem (by simpa using hk), put_map_of_mem h hk,
      filter_put_of_neg (fun j => !(t.map Prod.fst).contains j) (by simpa using hk)]
  · have hother : ∀ e ∈ t, e.1 ≠ k := fun e he heq => hk (heq ▸ List.mem_map_of_mem he)
    rw [put_append_of_not_mem (by simpa using hk),
      filter_put_of_pos (fun j => !(t.map Prod.fst).contains j) (by simpa using hk)]
    exact congrArg (· ++ _) (List.map_congr_left fun e he => by rw [if_neg (hother e he)])

end Rosette.Table
