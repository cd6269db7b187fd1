import LessonScript.Binary64.Rounding

/-!
Arithmetic of floating point numbers.

Sum, difference, product and quotient are the correctly rounded ones of the core type.
Rounding to an integer and the remainder are exact, so they are computed on the integers
that significand and exponent describe.
-/

namespace LessonScript.Binary64

def add (x y : Binary64) : Binary64 :=
  ⟨(Float.ofBits x.bits + Float.ofBits y.bits).toBits⟩

def sub (x y : Binary64) : Binary64 :=
  ⟨(Float.ofBits x.bits - Float.ofBits y.bits).toBits⟩

def mul (x y : Binary64) : Binary64 :=
  ⟨(Float.ofBits x.bits * Float.ofBits y.bits).toBits⟩

def div (x y : Binary64) : Binary64 :=
  ⟨(Float.ofBits x.bits / Float.ofBits y.bits).toBits⟩

/-- The magnitude of a finite number as an integer part and a fraction: numerator and
denominator. -/
def quotient (x : Binary64) : Nat × Nat :=
  inUnits x.significand 1 (-x.exponent)

/-- The number rounded to an integer by a rule for the magnitude.  A zero result keeps the
sign; infinities and non-numbers stay as they are. -/
def roundWith (rule : (negative : Bool) → Nat → Nat → Nat) (x : Binary64) : Binary64 :=
  if x.isFinite && x.exponent < 0 then
    ofQuotient x.isNegative (rule x.isNegative x.quotient.1 x.quotient.2) 1
  else x

def floor : Binary64 → Binary64 :=
  roundWith fun negative n d => if negative && n % d != 0 then n / d + 1 else n / d

def roundEven : Binary64 → Binary64 :=
  roundWith fun _ n d => divNearestEven n d

/-- The integer part of a finite number, its fraction dropped. -/
def truncate? (x : Binary64) : Option Int :=
  if x.isFinite then
    let part := (x.quotient.1 / x.quotient.2 : Nat)
    some (if x.isNegative then -(part : Int) else part)
  else none

/-- The remainder of the division that drops the fraction of the quotient; it is exact and
has the sign of the dividend. -/
def remainder (x y : Binary64) : Binary64 :=
  if x.isNaN || y.isNaN || !x.isFinite || y.isZero then nan false
  else if !y.isFinite || x.isZero then x
  else
    let unit := min x.exponent y.exponent
    let dividend := x.significand * Nat.pow 2 (x.exponent - unit).toNat
    let divisor := y.significand * Nat.pow 2 (y.exponent - unit).toNat
    ofScaled x.isNegative (dividend % divisor) unit

/-- The remainder with the sign of the divisor, also when it is zero. -/
def modulo (x y : Binary64) : Binary64 :=
  let rest := x.remainder y
  if rest.isNaN then rest
  else if rest.isZero then zero y.isNegative
  else if rest.isNegative != y.isNegative then rest.add y
  else rest

def powNat (base product : Binary64) (n : Nat) : Binary64 :=
  let product := if n % 2 = 1 then product.mul base else product
  if h : n / 2 = 0 then product
  else powNat (base.mul base) product (n / 2)
  termination_by n
  decreasing_by omega

/-- The power of ten used to shift decimal places; a negative one is the reciprocal. -/
def tenToThe (n : Int) : Binary64 :=
  let power := powNat (ofInt 10) (ofInt 1) n.natAbs
  if n < 0 then (ofInt 1).div power else power

/-- The number rounded to so many decimal places, ties to even.  Where the shifted number
or the result leaves the finite range, the number stays as it is. -/
def roundPlaces (x : Binary64) (places : Int) : Binary64 :=
  if !x.isFinite then x
  else
    let scale := tenToThe (max (-400) (min 400 places))
    let shifted := x.mul scale
    if !shifted.isFinite then x
    else
      let rounded := shifted.roundEven.div scale
      if rounded.isFinite then rounded else x

end LessonScript.Binary64
