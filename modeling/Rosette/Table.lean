/-!
# Tables in order of arrival

Named values in the order in which their names first came. Writing to a name that is present replaces its
value and keeps its place.
-/

namespace Rosette

/-- Named values; no name occurs twice in a table made by `put`. -/
abbrev Table (α : Type) := List (String × α)

namespace Table

variable {α : Type}

/-- The table with a value written to a name. -/
def put : Table α → String → α → Table α
  | [], k, v => [(k, v)]
  | (k', v') :: rest, k, v => if k' = k then (k, v) :: rest else (k', v') :: put rest k v

/-- The table after writing all pairs in order. -/
def ofList (entries : List (String × α)) : Table α :=
  entries.foldl (fun t e => put t e.1 e.2) []

/-- Writing puts the value under its name. -/
theorem lookup_put_self (t : Table α) (k : String) (v : α) : (put t k v).lookup k = some v := by
  induction t with
  | nil => simp [put]
  | cons e rest ih =>
    obtain ⟨k', v'⟩ := e
    by_cases h : k' = k
    · simp [put, h]
    · have hk : (k == k') = false := by simpa using fun e => h e.symm
      simp [put, h, List.lookup_cons, hk, ih]

/-- Writing leaves the other names as they were. -/
theorem lookup_put_of_ne (t : Table α) {j k : String} (v : α) (h : j ≠ k) :
    (put t k v).lookup j = t.lookup j := by
  have hj : (j == k) = false := by simpa using h
  induction t with
  | nil => simp [put, List.lookup_cons, hj]
  | cons e rest ih =>
    obtain ⟨k', v'⟩ := e
    by_cases hk : k' = k
    · subst hk; simp [put, List.lookup_cons, hj]
    · simp [put, hk, List.lookup_cons, ih]

end Table

end Rosette
