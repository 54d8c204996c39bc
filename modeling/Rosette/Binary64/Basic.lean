/-!
# Binary floating point of 64 bits

Radii, sizes and colour parameters are binary64 numbers, kept as sign, significand and exponent. `ofRatio`
rounds a quotient of naturals to the nearest of them by exact arithmetic; of two equally near it takes the
one with the even significand.
-/

namespace Rosette

/-- A binary64 number. A finite one is `± significand · 2 ^ exponent`. -/
inductive Binary64 where
  | finite (negative : Bool) (significand : Nat) (exponent : Int)
  | infinite (negative : Bool)
  | nan
deriving DecidableEq, Repr, Inhabited

namespace Binary64

/-- The exponent of the least positive number. -/
def minExponent : Int := -1074

/-- The exponent of the greatest finite number. -/
def maxExponent : Int := 971

/-- The one form each finite number has: 53 significant bits, or fewer at the least exponent. -/
def Canonical : Binary64 → Prop
  | finite _ m e =>
    m < Nat.pow 2 53 ∧ minExponent ≤ e ∧ e ≤ maxExponent ∧ (Nat.pow 2 52 ≤ m ∨ e = minExponent)
  | _ => True

/-- The zero of either sign. -/
def zero (negative : Bool) : Binary64 := finite negative 0 minExponent

/-- `num / den` rounded to a natural number; a half goes to the even neighbour. -/
def roundHalfEven (num den : Nat) : Nat :=
  let q := num / den
  let r := num % den
  if 2 * r < den then q
  else if den < 2 * r then q + 1
  else if q % 2 = 0 then q else q + 1

/-- The exponent at which `num / den` has 53 bits before the point, or the least one if it is higher. -/
def exponentOf (num den : Nat) : Int :=
  -- `num / den` lies between half and twice the power `k` of two
  let k : Int := (num.log2 : Int) - den.log2
  let atLeast := den * Nat.pow 2 k.toNat ≤ num * Nat.pow 2 (-k).toNat
  max (if atLeast then k - 52 else k - 53) minExponent

/-- The number nearest to `± num / den`. -/
def ofRatio (negative : Bool) (num den : Nat) : Binary64 :=
  if num = 0 then zero negative
  else
    let e := exponentOf num den
    let m := roundHalfEven (num * Nat.pow 2 (-e).toNat) (den * Nat.pow 2 e.toNat)
    -- rounding up may need one bit more
    let (m, e) := if m = Nat.pow 2 53 then (Nat.pow 2 52, e + 1) else (m, e)
    if maxExponent < e then infinite negative else finite negative m e

/-- The number nearest to a whole number. -/
def ofInt (n : Int) : Binary64 := ofRatio (decide (n < 0)) n.natAbs 1

/-- The number nearest to `± digits · 10 ^ exponent`. Where the power alone decides, it is not computed. -/
def ofDecimal (negative : Bool) (digits : Nat) (exponent : Int) : Binary64 :=
  if digits = 0 then zero negative
  else if 400 < exponent then infinite negative
  else if exponent < -400 - (digits.log2 : Int) then zero negative
  else ofRatio negative (digits * Nat.pow 10 exponent.toNat) (Nat.pow 10 (-exponent).toNat)

/-- Whether two numbers are equal as numbers: the zeros are, and not-a-number equals nothing. -/
def equal : Binary64 → Binary64 → Bool
  | finite s m e, finite t n f => (m == n && e == f && s == t) || (m == 0 && n == 0)
  | infinite s, infinite t => s == t
  | _, _ => false

end Binary64

end Rosette
