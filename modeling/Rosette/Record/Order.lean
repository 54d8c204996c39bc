import Rosette.Binary64.Writing
import Rosette.Misfit

/-!
# The order of values

Numbers are ordered by size, texts by their characters, and lists by the first items that differ. Other
values have no order.
-/

namespace Rosette.Value

/-- The numerator and the denominator of a finite number. -/
def ratio? : Int ⊕ Binary64 → Option (Int × Nat)
  | .inl n => some (n, 1)
  | .inr (.finite negative m e) =>
    let (num, den) := Binary64.ratio m e
    some (if negative then -(num : Int) else num, den)
  | .inr _ => none

/-- Whether a number is less than another; not-a-number is neither less nor greater. -/
def lessNumber : Int ⊕ Binary64 → Int ⊕ Binary64 → Bool
  | .inr .nan, _ => false
  | _, .inr .nan => false
  | .inr (.infinite a), .inr (.infinite b) => a && !b
  | .inr (.infinite a), _ => a
  | _, .inr (.infinite b) => !b
  | a, b =>
    match ratio? a, ratio? b with
    | some (m, c), some (n, d) => m * d < n * c
    | _, _ => false

mutual

/-- Whether a value comes before another. -/
def less : Value → Value → Except Misfit Bool
  | .text s, .text t => .ok (decide (s < t))
  | .list as, .list bs => lessItems as bs
  | a, b =>
    match a.number?, b.number? with
    | some m, some n => .ok (lessNumber m n)
    | _, _ => .error (.notOrdered a.typeName b.typeName)

/-- Whether a list comes before another. -/
def lessItems : List Value → List Value → Except Misfit Bool
  | [], bs => .ok (!bs.isEmpty)
  | _, [] => .ok false
  | a :: as, b :: bs => if same a b then lessItems as bs else less a b

end

end Rosette.Value
