import LessonScript.Binary64.Basic

/-!
Rounding to the nearest floating point number.

`ofQuotient` rounds an exact quotient of two natural numbers once: to the nearest number,
a tie to the even significand, and from the top of the range on to infinity.  Integers,
decimal numerals and the results of exact integer arithmetic all come in through it, so
no intermediate result is ever rounded.
-/

namespace LessonScript.Binary64

def divNearestEven (n d : Nat) : Nat :=
  let quotient := n / d
  let rest := n % d
  if 2 * rest < d then quotient
  else if d < 2 * rest then quotient + 1
  else if quotient % 2 = 0 then quotient else quotient + 1

def inUnits (n d : Nat) (unit : Int) : Nat × Nat :=
  if 0 ≤ unit then (n, d * Nat.pow 2 unit.toNat) else (n * Nat.pow 2 (-unit).toNat, d)

/-- The exponent of the unit in which `n / d` has a significand of 53 bits, but never
below the unit of the subnormal numbers. -/
def unitExponent (n d : Nat) : Int :=
  let guess : Int := (n.log2 : Int) - d.log2 - 52
  let scaled := inUnits n d guess
  max (-1074) (if scaled.1 / scaled.2 < fieldWeight then guess - 1 else guess)

/-- The number nearest to `n / d` with the given sign, for a positive `d`. -/
def ofQuotient (negative : Bool) (n d : Nat) : Binary64 :=
  if n = 0 then zero negative
  else
    let unit := unitExponent n d
    let scaled := inUnits n d unit
    let significand := divNearestEven scaled.1 scaled.2
    ofMagnitude negative
      (min infiniteMagnitude ((unit + 1074).toNat * fieldWeight + significand))

/-- The number nearest to an integer; zero is the positive one. -/
def ofInt (n : Int) : Binary64 :=
  ofQuotient (n < 0) n.natAbs 1

def ofScaled (negative : Bool) (n : Nat) (unit : Int) : Binary64 :=
  if 0 ≤ unit then ofQuotient negative (n * Nat.pow 2 unit.toNat) 1
  else ofQuotient negative n (Nat.pow 2 (-unit).toNat)

end LessonScript.Binary64
