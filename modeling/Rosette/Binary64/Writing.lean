import Rosette.Binary64.Basic

/-!
# Writing binary floating point numbers

`text` writes a number with the fewest digits that read back to it, positionally if the leading digit has
a place value from `10^-4` to `10^15` and with a signed exponent of at least two digits otherwise; a whole
number keeps `.0`. `fixedText` writes six places, rounded half to even.
-/

namespace Rosette.Binary64

/-- The least `k` with `num / den < 10 ^ k`, or `num / den = 10 ^ k` below one. -/
def decimalExponent (num den : Nat) : Int :=
  if den ≤ num then (Nat.toDigits 10 (num / den)).length
  else 1 - ((Nat.toDigits 10 ((den + num - 1) / num - 1)).length : Int)

/-- The numerator and the denominator of `significand · 2 ^ exponent`. -/
def ratio (m : Nat) (e : Int) : Nat × Nat := (m * Nat.pow 2 e.toNat, Nat.pow 2 (-e).toNat)

/-- The neighbours of the number on the grid of the multiples of `10 ^ g`, if they read back: the nearer
one first, and the even one of two that are equally near. -/
def onGrid? (m : Nat) (e : Int) (g : Int) : Option (Nat × Int) :=
  let (num, den) := ratio m e
  let num := num * Nat.pow 10 (-g).toNat
  let den := den * Nat.pow 10 g.toNat
  let lower := num / den
  let upper := lower + 1
  let readsBack := fun q => ofDecimal false q g == finite false m e
  let lowerFirst := 2 * (num % den) < den || (2 * (num % den) == den && lower % 2 == 0)
  let first := if lowerFirst then lower else upper
  let second := if lowerFirst then upper else lower
  if readsBack first then some (first, g)
  else if readsBack second then some (second, g)
  else none

/-- The number as a whole number of its least binary digits in decimal notation; this is exact. -/
def exactDecimal (m : Nat) (e : Int) : Nat × Int := (m * Nat.pow 2 e.toNat * Nat.pow 5 (-e).toNat, min e 0)

/-- Digits and a power of ten, with as few digits as read back to the number. -/
def shortest (m : Nat) (e : Int) : Nat × Int :=
  let (num, den) := ratio m e
  let k := decimalExponent num den
  match (List.range 17).findSome? fun n : Nat => onGrid? m e (k - (n + 1 : Int)) with
  | some d => d
  | none => exactDecimal m e

/-- The digits without the zeros at the end, which move into the power of ten. -/
def stripZeros (digits : Nat) (exponent : Int) : Nat × Int :=
  if h : digits ≠ 0 ∧ digits % 10 = 0 then stripZeros (digits / 10) (exponent + 1)
  else (digits, exponent)
termination_by digits
decreasing_by omega

/-- Digits with the decimal point behind the first `point` of them, which may lie outside the digits. -/
def positional (ds : List Char) (point : Int) : List Char :=
  if point ≤ 0 then '0' :: '.' :: List.replicate (-point).toNat '0' ++ ds
  else if (ds.length : Int) ≤ point then
    ds ++ List.replicate (point - ds.length).toNat '0' ++ ['.', '0']
  else ds.take point.toNat ++ '.' :: ds.drop point.toNat

/-- Digits with a point behind the first and an exponent. -/
def scientific (ds : List Char) (exponent : Int) : List Char :=
  let mantissa :=
    match ds with
    | [] => []
    | [d] => [d]
    | d :: rest => d :: '.' :: rest
  let power := Nat.toDigits 10 exponent.natAbs
  let padded := if power.length < 2 then '0' :: power else power
  mantissa ++ 'e' :: (if exponent < 0 then '-' else '+') :: padded

/-- The digits of a finite number laid out, without a sign. -/
def magnitudeText (m : Nat) (e : Int) : List Char :=
  if m = 0 then ['0', '.', '0']
  else
    let (d, g) := shortest m e
    let (d, g) := stripZeros d g
    let ds := Nat.toDigits 10 d
    -- the place of the point, counted from the first digit
    let point := g + ds.length
    if -4 < point && point ≤ 16 then positional ds point else scientific ds (point - 1)

/-- The text of a number: the fewest digits that read back. -/
def text : Binary64 → List Char
  | finite negative m e => (if negative then ['-'] else []) ++ magnitudeText m e
  | infinite negative => (if negative then ['-'] else []) ++ ['i', 'n', 'f']
  | nan => ['n', 'a', 'n']

/-- The text of a number with six places behind the point. -/
def fixedText : Binary64 → List Char
  | finite negative m e =>
    let (num, den) := ratio m e
    let millionths := roundHalfEven (num * Nat.pow 10 6) den
    let places := Nat.toDigits 10 (millionths % Nat.pow 10 6)
    (if negative then ['-'] else []) ++ Nat.toDigits 10 (millionths / Nat.pow 10 6) ++
      '.' :: (List.replicate (6 - places.length) '0' ++ places)
  | infinite negative => (if negative then ['-'] else []) ++ ['i', 'n', 'f']
  | nan => ['n', 'a', 'n']

/-- The text of a number without an exponent: the shortest one, or six places where that has one. -/
def plainText (x : Binary64) : List Char :=
  if x.text.contains 'e' then x.fixedText else x.text

end Rosette.Binary64
