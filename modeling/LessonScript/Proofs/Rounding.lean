import LessonScript.Binary64.Decimal
import Mathlib.Algebra.Order.Field.Power
import Mathlib.Algebra.Order.Ring.Rat
import Mathlib.Tactic.FieldSimp
import Mathlib.Tactic.Linarith
import Mathlib.Tactic.NormNum
import Mathlib.Tactic.Positivity
import Mathlib.Tactic.Ring

/-!
Rounding to the nearest floating point number.

The interval of a finite number (`Binary64.interval`) is what its text is chosen from.  The main
statement is that the interval is right: every quotient that lies in it is rounded to the number
(`Binary64.ofQuotient_of_holds`).
-/

namespace LessonScript.Binary64

theorem magnitude_eq (x : Binary64) :
    x.magnitude = (x.exponent + 1074).toNat * fieldWeight + x.significand := by
  have parts := Nat.div_add_mod x.magnitude fieldWeight
  unfold exponent significand exponentField
  split
  · rename_i small
    simp
  · rename_i normal
    generalize x.magnitude / fieldWeight = field at parts normal ⊢
    generalize x.magnitude % fieldWeight = rest at parts ⊢
    unfold fieldWeight at parts ⊢
    omega

theorem significand_lt (x : Binary64) : x.significand < 2 * fieldWeight := by
  have positive : 0 < fieldWeight := by decide
  unfold significand exponentField
  split
  · rename_i small
    have := (Nat.div_eq_zero_iff_lt positive).mp small
    omega
  · have := Nat.mod_lt x.magnitude positive
    omega

theorem le_exponent (x : Binary64) : -1074 ≤ x.exponent := by
  unfold exponent
  split <;> omega

theorem fieldWeight_le_significand {x : Binary64} (normal : x.exponent ≠ -1074) :
    fieldWeight ≤ x.significand := by
  unfold exponent at normal
  unfold significand
  split
  · rename_i small
    rw [if_pos small] at normal
    exact absurd rfl normal
  · omega

theorem divNearestEven_eq {n d m : Nat} (positive : 0 < d) (low : (m : ℚ) - 1 / 2 ≤ n / d)
    (high : (n : ℚ) / d ≤ m + 1 / 2)
    (even : m % 2 = 0 ∨ ((m : ℚ) - 1 / 2 < n / d ∧ (n : ℚ) / d < m + 1 / 2)) :
    divNearestEven n d = m := by
  have positive' : (0 : ℚ) < d := by exact_mod_cast positive
  rw [le_div_iff₀ positive'] at low
  rw [div_le_iff₀ positive'] at high
  rw [lt_div_iff₀ positive', div_lt_iff₀ positive'] at even
  have lowNat : 2 * (m * d) ≤ 2 * n + d := by
    have : 2 * ((m : ℚ) * d) ≤ 2 * n + d := by linarith
    exact_mod_cast this
  have highNat : 2 * n ≤ 2 * (m * d) + d := by
    have : 2 * (n : ℚ) ≤ 2 * (m * d) + d := by linarith
    exact_mod_cast this
  have evenNat : m % 2 = 0 ∨ (2 * (m * d) < 2 * n + d ∧ 2 * n < 2 * (m * d) + d) := by
    refine even.imp_right ?_
    rintro ⟨above, below⟩
    constructor
    · have : 2 * ((m : ℚ) * d) < 2 * n + d := by linarith
      exact_mod_cast this
    · have : 2 * (n : ℚ) < 2 * (m * d) + d := by linarith
      exact_mod_cast this
  clear low high even
  have division := Nat.div_add_mod n d
  have rest := Nat.mod_lt n positive
  unfold divNearestEven
  generalize n / d = quotient at division ⊢
  generalize n % d = left at division rest ⊢
  -- A neighbour of the quotient is the quotient or the next number.
  have near : m = quotient ∨ m = quotient + 1 := by
    have below : m < quotient + 2 := by
      by_contra far
      have := Nat.mul_le_mul_right d (Nat.le_of_not_lt far)
      rw [Nat.add_mul, Nat.mul_comm quotient] at this
      omega
    have above : quotient < m + 1 := by
      by_contra far
      have := Nat.mul_le_mul_right d (Nat.le_of_not_lt far)
      rw [Nat.add_mul, Nat.mul_comm quotient] at this
      omega
    omega
  rw [Nat.mul_comm d] at division
  dsimp only
  rcases near with rfl | rfl
  · split
    · rfl
    · split
      · omega
      · rw [if_pos (by omega)]
  · rw [Nat.add_mul] at lowNat highNat evenNat
    rw [if_neg (by omega)]
    split
    · rfl
    · rw [if_neg (by omega)]

theorem inUnits_pos (n : Nat) {d : Nat} (positive : 0 < d) (unit : Int) :
    0 < (inUnits n d unit).2 := by
  unfold inUnits
  split
  · exact Nat.mul_pos positive (Nat.pow_pos (by decide))
  · exact positive

theorem inUnits_div (n d : Nat) (unit : Int) :
    ((inUnits n d unit).1 : ℚ) / (inUnits n d unit).2 = n / d / 2 ^ unit := by
  unfold inUnits
  split
  · rename_i up
    obtain ⟨k, rfl⟩ := Int.eq_ofNat_of_zero_le up
    simp only [Int.toNat_natCast, Nat.pow_eq, Nat.cast_mul, Nat.cast_pow, Nat.cast_ofNat,
      zpow_natCast, div_div]
  · rename_i down
    obtain ⟨k, same⟩ := Int.eq_ofNat_of_zero_le (show 0 ≤ -unit by omega)
    obtain rfl : unit = -(k : Int) := by omega
    simp only [neg_neg, Int.toNat_natCast, Nat.pow_eq, Nat.cast_mul, Nat.cast_pow, Nat.cast_ofNat,
      zpow_neg, zpow_natCast, div_inv_eq_mul]
    ring

theorem div_lt_iff_cast {n d : Nat} (positive : 0 < d) (bound : Nat) :
    n / d < bound ↔ (n : ℚ) / d < bound := by
  have positive' : (0 : ℚ) < d := by exact_mod_cast positive
  rw [Nat.div_lt_iff_lt_mul positive, div_lt_iff₀ positive']
  exact_mod_cast Iff.rfl

theorem quotient_near_log2 {n d : Nat} (some : 0 < n) (positive : 0 < d) :
    (2 : ℚ) ^ ((n.log2 : Int) - d.log2) < 2 * (n / d) ∧
      (n : ℚ) / d < 2 * 2 ^ ((n.log2 : Int) - d.log2) := by
  have positive' : (0 : ℚ) < d := by exact_mod_cast positive
  have low : (2 : ℚ) ^ n.log2 ≤ n := by exact_mod_cast Nat.log2_self_le (Nat.ne_of_gt some)
  have high : (n : ℚ) < 2 ^ n.log2 * 2 := by
    exact_mod_cast Nat.lt_log2_self (n := n)
  have low' : (2 : ℚ) ^ d.log2 ≤ d := by exact_mod_cast Nat.log2_self_le (Nat.ne_of_gt positive)
  have high' : (d : ℚ) < 2 ^ d.log2 * 2 := by
    exact_mod_cast Nat.lt_log2_self (n := d)
  have power : (0 : ℚ) < 2 ^ n.log2 := by positivity
  have power' : (0 : ℚ) < 2 ^ d.log2 := by positivity
  rw [zpow_sub₀ (by norm_num : (2 : ℚ) ≠ 0), zpow_natCast, zpow_natCast]
  constructor
  · rw [div_lt_iff₀ power', mul_div_assoc', div_mul_eq_mul_div, lt_div_iff₀ positive']
    calc (2 : ℚ) ^ n.log2 * d < 2 ^ n.log2 * (2 ^ d.log2 * 2) := by gcongr
      _ ≤ n * (2 ^ d.log2 * 2) := by gcongr
      _ = 2 * n * 2 ^ d.log2 := by ring
  · rw [div_lt_iff₀ positive', mul_div_assoc', div_mul_eq_mul_div, lt_div_iff₀ power']
    calc (n : ℚ) * 2 ^ d.log2 < 2 ^ n.log2 * 2 * 2 ^ d.log2 := by gcongr
      _ ≤ 2 ^ n.log2 * 2 * d := by gcongr
      _ = 2 * 2 ^ n.log2 * d := by ring

/-- The unit of a quotient leaves a significand of at most 53 bits, and of 53 bits unless it is
the least unit. -/
theorem unitExponent_spec {n d : Nat} (some : 0 < n) (positive : 0 < d) :
    -1074 ≤ unitExponent n d ∧ (n : ℚ) / d < 2 ^ 53 * 2 ^ unitExponent n d ∧
      (unitExponent n d = -1074 ∨ 2 ^ 52 * 2 ^ unitExponent n d ≤ (n : ℚ) / d) := by
  have two : (2 : ℚ) ≠ 0 := by norm_num
  let guess : Int := (n.log2 : Int) - d.log2 - 52
  obtain ⟨above, below⟩ := quotient_near_log2 some positive
  rw [show (n.log2 : Int) - d.log2 = guess + 52 by omega, zpow_add₀ two] at above below
  norm_num at above below
  -- Before it is held to the least unit, the exponent leaves 53 bits.
  obtain ⟨exact, same, high, low⟩ : ∃ exact, unitExponent n d = max (-1074) exact ∧
      (n : ℚ) / d < 2 ^ 53 * 2 ^ exact ∧ 2 ^ 52 * 2 ^ exact ≤ (n : ℚ) / d := by
    refine ⟨_, rfl, ?_⟩
    have unit : (0 : ℚ) < 2 ^ guess := by positivity
    change _ < 2 ^ 53 * 2 ^ (if _ / _ < fieldWeight then guess - 1 else guess) ∧
      2 ^ 52 * 2 ^ (if _ / _ < fieldWeight then guess - 1 else guess) ≤ _
    have short : (inUnits n d guess).1 / (inUnits n d guess).2 < fieldWeight ↔
        (n : ℚ) / d < 2 ^ 52 * 2 ^ guess := by
      rw [div_lt_iff_cast (inUnits_pos n positive guess), inUnits_div, div_lt_iff₀ unit]
      norm_num [fieldWeight]
    by_cases shorter : (inUnits n d guess).1 / (inUnits n d guess).2 < fieldWeight
    · rw [if_pos shorter, zpow_sub₀ two]
      rw [short] at shorter
      constructor <;> norm_num at shorter ⊢ <;> linarith
    · rw [if_neg shorter]
      rw [short, not_lt] at shorter
      constructor
      · norm_num at below ⊢
        linarith
      · exact shorter
  rw [same]
  rcases le_total exact (-1074) with least | more
  · rw [max_eq_left least]
    refine ⟨le_refl _, lt_of_lt_of_le high ?_, .inl rfl⟩
    gcongr
    norm_num
  · rw [max_eq_right more]
    exact ⟨more, high, .inr low⟩

/-- The number lies in the interval, whose ends are part of it if it is closed. -/
def Interval.Holds (i : Interval) (q : ℚ) : Prop :=
  if i.closed then i.low * 2 ^ i.unit ≤ q ∧ q ≤ i.high * 2 ^ i.unit
  else i.low * 2 ^ i.unit < q ∧ q < i.high * 2 ^ i.unit

/-- What the interval of a number says, in units of its last place. -/
structure Near (x : Binary64) (q : ℚ) : Prop where
  low : (x.significand : ℚ) - 1 / 2 ≤ q / 2 ^ x.exponent
  high : q / 2 ^ x.exponent ≤ x.significand + 1 / 2
  even : x.significand % 2 = 0 ∨ ((x.significand : ℚ) - 1 / 2 < q / 2 ^ x.exponent ∧
    q / 2 ^ x.exponent < x.significand + 1 / 2)
  /-- Below the least number of a binade the numbers lie closer. -/
  narrow : x.significand = fieldWeight → x.exponent ≠ -1074 →
    (x.significand : ℚ) - 1 / 4 ≤ q / 2 ^ x.exponent

theorem Interval.Holds.within {i : Interval} {q : ℚ} (holds : i.Holds q) :
    i.low * 2 ^ i.unit ≤ q ∧ q ≤ i.high * 2 ^ i.unit := by
  unfold Holds at holds
  split at holds
  · exact holds
  · exact ⟨le_of_lt holds.1, le_of_lt holds.2⟩

theorem interval_low {x : Binary64} (some : 0 < x.significand) :
    (x.interval.low : ℚ) = 4 * x.significand -
      if x.significand = fieldWeight ∧ x.exponent ≠ -1074 then 1 else 2 := by
  unfold interval
  dsimp only
  split
  · rw [Nat.cast_sub (by omega)]
    norm_num
  · rw [Nat.cast_sub (by omega)]
    norm_num

theorem Interval.Holds.near {x : Binary64} (some : 0 < x.significand) {q : ℚ}
    (holds : x.interval.Holds q) : x.Near q := by
  have unit : (0 : ℚ) < 2 ^ x.exponent := by positivity
  have quarter : (2 : ℚ) ^ x.interval.unit = 2 ^ x.exponent / 4 := by
    change (2 : ℚ) ^ (x.exponent - 2) = _
    rw [zpow_sub₀ (by norm_num : (2 : ℚ) ≠ 0)]
    norm_num
  have high : (x.interval.high : ℚ) = 4 * x.significand + 2 := by
    simp [interval]
  have low : (4 : ℚ) * x.significand - 2 ≤ x.interval.low := by
    rw [interval_low some]
    split <;> linarith
  obtain ⟨above, below⟩ := holds.within
  rw [quarter] at above below
  rw [high] at below
  constructor
  · rw [le_div_iff₀ unit]
    have := mul_le_mul_of_nonneg_right low (le_of_lt unit)
    linarith
  · rw [div_le_iff₀ unit]
    linarith
  · by_cases closed : x.significand % 2 = 0
    · exact .inl closed
    · right
      have isOpen : x.interval.closed = false := by simp [interval, closed]
      unfold Holds at holds
      rw [isOpen, if_neg Bool.false_ne_true, quarter, high] at holds
      rw [lt_div_iff₀ unit, div_lt_iff₀ unit]
      have := mul_le_mul_of_nonneg_right low (le_of_lt unit)
      constructor <;> linarith [holds.1, holds.2]
  · intro least normal
    rw [interval_low some, if_pos ⟨least, normal⟩] at above
    rw [le_div_iff₀ unit]
    linarith

/-- The significand to which a quotient is rounded, and its unit, are those of a number that it is
near to; only a quotient below the least number of a binade comes to it from the binade below. -/
theorem rounded_of_near {x : Binary64} (some : 0 < x.significand) {n d : Nat} (nonzero : 0 < n)
    (positive : 0 < d) (near : x.Near (n / d)) :
    (unitExponent n d + 1074).toNat * fieldWeight +
        divNearestEven (inUnits n d (unitExponent n d)).1 (inUnits n d (unitExponent n d)).2 =
      x.magnitude := by
  have two : (2 : ℚ) ≠ 0 := by norm_num
  have unit : (0 : ℚ) < 2 ^ x.exponent := by positivity
  obtain ⟨least, short, long⟩ := unitExponent_spec nonzero positive
  have longX : (x.significand : ℚ) + 1 ≤ 2 ^ 53 := by
    have := x.significand_lt
    unfold fieldWeight at this
    have : x.significand + 1 ≤ 2 ^ 53 := by omega
    exact_mod_cast this
  have ratio := inUnits_div n d (unitExponent n d)
  have scaled := inUnits_pos n positive (unitExponent n d)
  have high := near.high
  rw [div_le_iff₀ unit] at high
  generalize unitExponent n d = u at least short long ratio scaled ⊢
  have step (k : Int) : (2 : ℚ) ^ (x.exponent + k) = 2 ^ x.exponent * 2 ^ k := zpow_add₀ two _ k
  rcases lt_trichotomy u x.exponent with below | rfl | above
  · -- The quotient is below the binade of the number, so the number is the least one of it.
    have normal : x.exponent ≠ -1074 := by omega
    have weight := fieldWeight_le_significand normal
    have bound : (2 : ℚ) ^ u ≤ 2 ^ x.exponent * 2 ^ (-1 : Int) := by
      rw [← step]
      exact zpow_le_zpow_right₀ (by norm_num) (by omega)
    norm_num at bound
    have atLeast : x.significand = fieldWeight := by
      by_contra more
      have beyond : (2 : ℚ) ^ 52 + 1 ≤ x.significand := by
        exact_mod_cast Nat.lt_of_le_of_ne weight (Ne.symm more)
      have low := near.low
      rw [le_div_iff₀ unit] at low
      have := mul_le_mul_of_nonneg_right beyond (le_of_lt unit)
      linarith
    have low := near.narrow atLeast normal
    rw [le_div_iff₀ unit, atLeast] at low
    norm_num [fieldWeight] at low
    obtain rfl : u = x.exponent + -1 := by
      by_contra other
      have : (2 : ℚ) ^ u ≤ 2 ^ x.exponent * 2 ^ (-2 : Int) := by
        rw [← step]
        exact zpow_le_zpow_right₀ (by norm_num) (by omega)
      norm_num at this
      linarith
    have carried : divNearestEven (inUnits n d (x.exponent + -1)).1
        (inUnits n d (x.exponent + -1)).2 = 2 ^ 53 := by
      rw [step] at short ratio
      norm_num at short ratio
      have half : (0 : ℚ) < 2 ^ x.exponent * (1 / 2) := by positivity
      apply divNearestEven_eq scaled
      · rw [ratio, le_div_iff₀ half]
        norm_num
        linarith
      · rw [ratio, div_le_iff₀ half]
        norm_num
        linarith
      · exact .inl (by norm_num)
    rw [carried, magnitude_eq, atLeast]
    unfold fieldWeight
    omega
  · rw [divNearestEven_eq scaled (ratio ▸ near.low) (ratio ▸ near.high) (ratio ▸ near.even),
      magnitude_eq]
  · have bound : (2 : ℚ) ^ x.exponent * 2 ^ (1 : Int) ≤ 2 ^ u := by
      rw [← step]
      exact zpow_le_zpow_right₀ (by norm_num) (by omega)
    have full := long.resolve_left (by have := x.le_exponent; omega)
    have := mul_le_mul_of_nonneg_right longX (le_of_lt unit)
    linarith

theorem ofQuotient_of_holds {x : Binary64} (finite : x.isFinite = true)
    (some : 0 < x.significand) {n d : Nat} (positive : 0 < d)
    (holds : x.interval.Holds (n / d)) (negative : Bool) :
    ofQuotient negative n d = ofMagnitude negative x.magnitude := by
  have near := holds.near some
  have nonzero : 0 < n := by
    rcases Nat.eq_zero_or_pos n with rfl | nonzero
    · have low := near.low
      have : (1 : ℚ) ≤ x.significand := by exact_mod_cast some
      norm_num at low
      linarith
    · exact nonzero
  unfold isFinite at finite
  rw [decide_eq_true_eq] at finite
  unfold ofQuotient
  rw [if_neg (Nat.ne_of_gt nonzero)]
  dsimp only
  rw [rounded_of_near some nonzero positive near, Nat.min_eq_right (Nat.le_of_lt finite)]

end LessonScript.Binary64
