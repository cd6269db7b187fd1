/-!
Binary floating point of 64 bits, as bit patterns.

A `Binary64` is its pattern: two not-a-number patterns are different values here, although
no comparison tells them apart.  Equality of the type is therefore identity of constants,
and the comparison of numbers is `Binary64.compare?`, which is undefined exactly when a
side is not a number and does not distinguish the two zeros.

A finite pattern stands for `significand * 2 ^ exponent`, with the sign in front.
-/

namespace LessonScript

/-- A floating point number of 64 bits, given by its bit pattern. -/
structure Binary64 where
  bits : UInt64
  deriving DecidableEq, Inhabited

namespace Binary64

def signWeight : Nat :=
  0x8000000000000000

/-- The weight of the exponent field, the 52nd power of two.  It is also the leading bit of a
significand, which is not stored. -/
def fieldWeight : Nat :=
  0x10000000000000

def magnitude (x : Binary64) : Nat :=
  x.bits.toNat % signWeight

def isNegative (x : Binary64) : Bool :=
  signWeight ≤ x.bits.toNat

def infiniteMagnitude : Nat :=
  2047 * fieldWeight

def ofMagnitude (negative : Bool) (magnitude : Nat) : Binary64 :=
  ⟨UInt64.ofNat (if negative then signWeight + magnitude else magnitude)⟩

def isNaN (x : Binary64) : Bool :=
  infiniteMagnitude < x.magnitude

def isFinite (x : Binary64) : Bool :=
  x.magnitude < infiniteMagnitude

def isZero (x : Binary64) : Bool :=
  x.magnitude == 0

def zero (negative : Bool) : Binary64 :=
  ofMagnitude negative 0

def infinity (negative : Bool) : Binary64 :=
  ofMagnitude negative infiniteMagnitude

def nan (negative : Bool) : Binary64 :=
  ofMagnitude negative (infiniteMagnitude + fieldWeight / 2)

def neg (x : Binary64) : Binary64 :=
  ofMagnitude (!x.isNegative) x.magnitude

def abs (x : Binary64) : Binary64 :=
  ofMagnitude false x.magnitude

/-- The integer that orders the numbers: the magnitude with the sign in front. -/
def orderKey (x : Binary64) : Int :=
  if x.isNegative then -(x.magnitude : Int) else x.magnitude

/-- The order of two numbers; nothing when a side is not a number. -/
def compare? (x y : Binary64) : Option Ordering :=
  if x.isNaN || y.isNaN then none else some (compare x.orderKey y.orderKey)

def exponentField (x : Binary64) : Nat :=
  x.magnitude / fieldWeight

def significand (x : Binary64) : Nat :=
  if x.exponentField = 0 then x.magnitude else x.magnitude % fieldWeight + fieldWeight

def exponent (x : Binary64) : Int :=
  if x.exponentField = 0 then -1074 else (x.exponentField : Int) - 1075

theorem magnitude_ofMagnitude (negative : Bool) {m : Nat} (hRange : m < signWeight) :
    (ofMagnitude negative m).magnitude = m := by
  unfold signWeight at hRange
  cases negative <;>
    simp only [ofMagnitude, magnitude, signWeight, UInt64.toNat_ofNat', if_true, if_false,
      Bool.false_eq_true] <;> omega

theorem isNegative_ofMagnitude (negative : Bool) {m : Nat} (hRange : m < signWeight) :
    (ofMagnitude negative m).isNegative = negative := by
  unfold signWeight at hRange
  cases negative <;>
    simp only [ofMagnitude, isNegative, signWeight, UInt64.toNat_ofNat', if_true, if_false,
      Bool.false_eq_true, decide_eq_true_eq, decide_eq_false_iff_not] <;> omega

theorem compare?_swap (x y : Binary64) :
    x.compare? y = (y.compare? x).map Ordering.swap := by
  unfold compare?
  rw [Bool.or_comm]
  split
  · rfl
  · simp [Int.compare_swap]

end Binary64

end LessonScript
