/-!
# Tables of code points

A class of characters is an ascending list of closed ranges of code points.
-/

namespace Rosette.Text

/-- Whether `n` lies in one of the ranges. They ascend, so the search ends at the first one above `n`. -/
def covers : List (Nat × Nat) → Nat → Bool
  | [], _ => false
  | (lo, hi) :: rs, n => lo ≤ n && (n ≤ hi || covers rs n)

end Rosette.Text
