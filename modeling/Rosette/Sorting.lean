/-!
# Sorting by a partial comparison

Sorting where not every two things can be compared: the first pair that cannot ends it, so it matters which
pairs are looked at. A run that rises or falls at the front is taken as it is, and each further item is put
into its place by bisection. Items that are equal keep their order.
-/

namespace Rosette.Sorting

variable {α ε : Type}

/-- The items that go on with a run behind `last`, and the rest. Of a falling run each item is less than the
one before it, and of a rising run none is. -/
def splitRun (less : α → α → Except ε Bool) (falling : Bool) (last : α) :
    List α → Except ε (List α × List α)
  | [] => .ok ([], [])
  | a :: rest => do
    let isLess ← less a last
    if isLess = falling then do
      let (run, rest) ← splitRun less falling a rest
      .ok (a :: run, rest)
    else .ok ([], a :: rest)

/-- The place of an item between the places `low` and `high` of a sorted list, behind all equal ones. -/
def place (less : α → α → Except ε Bool) (a : α) (sorted : List α) (low high : Nat) : Except ε Nat :=
  if low < high then
    let middle := (low + high) / 2
    match sorted[middle]? with
    | none => .ok low
    | some b => do
      let isLess ← less a b
      if isLess then place less a sorted low middle
      else place less a sorted (middle + 1) high
  else .ok low
termination_by high - low

/-- A sorted list with further items put into their places, one by one. -/
def insertAll (less : α → α → Except ε Bool) (sorted : List α) : List α → Except ε (List α)
  | [] => .ok sorted
  | a :: rest => do
    let i ← place less a sorted 0 sorted.length
    insertAll less (sorted.take i ++ a :: sorted.drop i) rest

/-- The list in rising order. -/
def sort (less : α → α → Except ε Bool) : List α → Except ε (List α)
  | a :: b :: rest => do
    let falling ← less b a
    let (run, rest) ← splitRun less falling b rest
    insertAll less (if falling then (a :: b :: run).reverse else a :: b :: run) rest
  | l => .ok l

end Rosette.Sorting
