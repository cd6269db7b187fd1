import LessonScript.Proofs.IntegerArithmetic

/-!
Rounding of integers to places in front of the point.

`HalfEven` says which multiple of a unit is the nearest one to a number, a tie going to the even
multiple; there is never more than one (`HalfEven.unique`).  The quotient that rounds down is
corrected by comparing twice the remainder with the unit, for numbers of both signs
(`halfEven_nearestQuotient`).

A machine has words of 128 bits for this.  `roundSteps?` is the builtin step by step on such words,
where a step that leaves them has no result; `roundSteps?_eq` says when all steps have one.
-/

namespace LessonScript

/-- The multiple `q * unit` is as near to `n` as any other, and where another one is as near, `q`
is even. -/
structure HalfEven (n unit q : Int) : Prop where
  nearest : ∀ k : Int, |n - q * unit| ≤ |n - k * unit|
  even : ∀ k : Int, k ≠ q → |n - k * unit| = |n - q * unit| → q % 2 = 0

/-- The quotient rounded down, or the next one where the remainder is more than half of the unit,
or half of it and the quotient odd. -/
def nearestQuotient (n unit : Int) : Int :=
  if unit < 2 * (n % unit) ∨ (2 * (n % unit) = unit ∧ n / unit % 2 ≠ 0) then n / unit + 1
  else n / unit

section Nearest

variable {n unit q : Int} (positive : 0 < unit)

include positive

/-- A number is at least a unit away from one of two different multiples, or between them. -/
theorem unit_le_distance {k : Int} (other : k ≠ q) :
    unit ≤ |n - q * unit| + |n - k * unit| := by
  have apart : 1 ≤ |k - q| := Int.one_le_abs (sub_ne_zero.mpr other)
  have scaled : |k - q| * unit = |(n - q * unit) - (n - k * unit)| := by
    rw [← abs_of_pos positive, ← abs_mul, abs_of_pos positive]
    ring_nf
  have least := mul_le_mul_of_nonneg_right apart positive.le
  have between := abs_sub (n - q * unit) (n - k * unit)
  omega

theorem halfEven_of_within (within : 2 * |n - q * unit| ≤ unit)
    (tie : 2 * |n - q * unit| = unit → q % 2 = 0) : HalfEven n unit q := by
  constructor
  · intro k
    by_cases same : k = q
    · rw [same]
    · have apart := unit_le_distance (n := n) positive same
      omega
  · intro k other equal
    have apart := unit_le_distance (n := n) positive other
    apply tie
    omega

/-- Two nearest multiples that are both even are the same: otherwise the number is the multiple in
the middle between them, and that one is nearer. -/
theorem HalfEven.unique {r : Int} (first : HalfEven n unit q) (second : HalfEven n unit r) :
    r = q := by
  by_contra other
  have equal : |n - r * unit| = |n - q * unit| := le_antisymm (second.nearest q) (first.nearest r)
  have evenFirst := first.even r other equal
  have evenSecond := second.even q (Ne.symm other) equal.symm
  have distinct : (r - q) * unit ≠ 0 := mul_ne_zero (sub_ne_zero.mpr other) positive.ne'
  rw [sub_mul] at distinct
  rcases abs_eq_abs.mp equal with same | opposite
  · omega
  · have middle : n = (q + r) / 2 * unit := by
      have halves : 2 * ((q + r) / 2) = q + r := by omega
      have doubled : 2 * ((q + r) / 2) * unit = q * unit + r * unit := by rw [halves, add_mul]
      rw [mul_assoc] at doubled
      omega
    have nearer := first.nearest ((q + r) / 2)
    rw [← middle, sub_self, abs_zero] at nearer
    have exact := abs_nonpos_iff.mp nearer
    omega

theorem HalfEven.within (rounds : HalfEven n unit q) : 2 * |n - q * unit| ≤ unit := by
  have below := rounds.nearest (q - 1)
  have above := rounds.nearest (q + 1)
  rw [sub_mul, one_mul] at below
  rw [add_mul, one_mul] at above
  simp only [Int.abs_eq_natAbs] at below above ⊢
  omega

theorem halfEven_nearestQuotient (n : Int) : HalfEven n unit (nearestQuotient n unit) := by
  have whole := Int.emod_add_ediv_mul n unit
  have low := Int.emod_nonneg n positive.ne'
  have high := Int.emod_lt_of_pos n positive
  unfold nearestQuotient
  by_cases up : unit < 2 * (n % unit) ∨ (2 * (n % unit) = unit ∧ n / unit % 2 ≠ 0)
  · have rest : |n - (n / unit + 1) * unit| = unit - n % unit := by
      rw [add_mul, one_mul, abs_of_nonpos (by omega)]
      omega
    rw [if_pos up]
    apply halfEven_of_within positive
    · omega
    · omega
  · have rest : |n - n / unit * unit| = n % unit := by
      rw [abs_of_nonneg (by omega)]
      omega
    rw [if_neg up]
    apply halfEven_of_within positive
    · omega
    · omega

end Nearest

namespace Builtin

theorem ten_pow_pos (power : Nat) : (0 : Int) < 10 ^ power :=
  pow_pos (by decide) power

/-- Twice the remainder leaves the wide words only where a negative number is divided by the
greatest power of ten. -/
theorem twice_rest_lt {n : Int64} {exponent : Nat} (few : exponent ≤ 38)
    (apart : ¬ (n < 0 ∧ exponent = 38)) : (2 * (n.toInt % 10 ^ exponent)).natAbs < 2 ^ 127 := by
  have positive := ten_pow_pos exponent
  have low := Int.emod_nonneg n.toInt positive.ne'
  have high := Int.emod_lt_of_pos n.toInt positive
  by_cases greatest : exponent = 38
  · subst greatest
    have bounds := fitsWord_toInt n
    have nonneg : 0 ≤ n.toInt := by
      rw [Value.lt_zero_iff] at apart
      omega
    have whole := Int.emod_eq_of_lt nonneg (b := 10 ^ 38) (by unfold FitsWord at bounds; omega)
    unfold FitsWord at bounds
    omega
  · have small : (10 : Int) ^ exponent ≤ 10 ^ 37 := pow_le_pow_right₀ (by decide) (by omega)
    omega

theorem nearestMultiple_eq {n : Int64} {power : Nat} (few : power ≤ 38)
    (apart : ¬ (n < 0 ∧ power = 38)) :
    nearestMultiple n.toInt power = nearestQuotient n.toInt (10 ^ power) * 10 ^ power := by
  have unit : ((Nat.pow 10 power : Nat) : Int) = 10 ^ power := Nat.cast_pow 10 power
  have small := twice_rest_lt few apart
  have kept : (BitVec.ofInt 128 (2 * (n.toInt % 10 ^ power))).toInt =
      2 * (n.toInt % 10 ^ power) := by
    rw [BitVec.toInt_ofInt, Int.bmod_eq_of_le (by omega) (by omega)]
  unfold nearestMultiple nearestQuotient
  rw [if_neg (by omega), unit]
  dsimp only
  rw [kept]
  split
  · rfl
  · rfl

theorem nearestMultiple_halfEven {word : Int64} {power : Nat}
    (apart : ¬ (word < 0 ∧ power = 38)) :
    ∃ q, HalfEven word.toInt (10 ^ power) q ∧
      nearestMultiple word.toInt power = q * 10 ^ power := by
  by_cases far : 39 ≤ power
  · have bounds := fitsWord_toInt word
    have large : (10 : Int) ^ 39 ≤ 10 ^ power := pow_le_pow_right₀ (by decide) far
    have within : 2 * |word.toInt - 0 * 10 ^ power| < 10 ^ power := by
      rw [Int.zero_mul, Int.sub_zero, Int.abs_eq_natAbs]
      unfold FitsWord at bounds
      omega
    refine ⟨0, halfEven_of_within (ten_pow_pos power) within.le fun _ => rfl, ?_⟩
    rw [nearestMultiple, if_pos far, Int.zero_mul]
  · exact ⟨_, halfEven_nearestQuotient (ten_pow_pos power) _,
      nearestMultiple_eq (Nat.le_of_lt_succ (Nat.not_le.mp far)) apart⟩

/-- The integer as a word of 128 bits; there is none for an integer that leaves them. -/
def wide? (n : Int) : Option Int :=
  if -2 ^ 127 ≤ n ∧ n < 2 ^ 127 then some n else none

def widePower? (exponent : Nat) : Option Int :=
  if exponent < 2 ^ 32 then wide? (10 ^ exponent) else none

def corrected? (unit quotient twice : Int) : Option Int :=
  if unit < twice ∨ (twice = unit ∧ quotient % 2 ≠ 0) then wide? (quotient + 1)
  else some quotient

/-- The integer rounded, step by step: without a power of ten the result is zero, and the quotient
by the power is corrected and multiplied again. -/
def roundSteps? (n places : Int64) : Option (Except Fault Value) :=
  if 0 ≤ places then some (.ok (.int n))
  else
    match widePower? places.toInt.natAbs with
    | none => some (.ok (.int 0))
    | some unit => do
      let quotient ← wide? (n.toInt / unit)
      let rest ← wide? (n.toInt % unit)
      let twice ← wide? (2 * rest)
      let nearest ← corrected? unit quotient twice
      return Value.ofExact "round" (← wide? (nearest * unit))

theorem wide?_of_natAbs_lt {n : Int} (small : n.natAbs < 2 ^ 127) : wide? n = some n := by
  apply if_pos
  omega

theorem widePower?_of_le {exponent : Nat} (few : exponent ≤ 38) :
    widePower? exponent = some (10 ^ exponent) := by
  have small : (10 : Int) ^ exponent ≤ 10 ^ 38 := pow_le_pow_right₀ (by decide) few
  have positive := ten_pow_pos exponent
  rw [widePower?, if_pos (by omega)]
  apply wide?_of_natAbs_lt
  omega

theorem widePower?_of_lt {exponent : Nat} (many : 38 < exponent) : widePower? exponent = none := by
  have large : (10 : Int) ^ 39 ≤ 10 ^ exponent := pow_le_pow_right₀ (by decide) many
  unfold widePower?
  split
  · apply if_neg
    omega
  · rfl

section Steps

variable {n : Int64} {exponent : Nat}

theorem natAbs_quotient_lt (n : Int64) (unit : Int) : (n.toInt / unit).natAbs ≤ 2 ^ 63 := by
  have bounds := fitsWord_toInt n
  have smaller := Int.natAbs_ediv_le_natAbs n.toInt unit
  unfold FitsWord at bounds
  omega

theorem natAbs_multiple_lt {q : Int} (few : exponent ≤ 38)
    (rounds : HalfEven n.toInt (10 ^ exponent) q) : (q * 10 ^ exponent).natAbs < 2 ^ 127 := by
  have small : (10 : Int) ^ exponent ≤ 10 ^ 38 := pow_le_pow_right₀ (by decide) few
  have bounds := fitsWord_toInt n
  have within := rounds.within (ten_pow_pos exponent)
  rw [Int.abs_eq_natAbs] at within
  unfold FitsWord at bounds
  omega

theorem corrected?_eq (n : Int64) (unit : Int) :
    corrected? unit (n.toInt / unit) (2 * (n.toInt % unit)) =
      some (nearestQuotient n.toInt unit) := by
  have quotient := natAbs_quotient_lt n unit
  unfold corrected? nearestQuotient
  split
  · apply wide?_of_natAbs_lt
    omega
  · rfl

/-- All steps for a power of ten that is a wide word have a result. -/
theorem roundSteps?_of_le {places : Int64} (negative : ¬ 0 ≤ places)
    (few : places.toInt.natAbs ≤ 38) (apart : ¬ (n < 0 ∧ places.toInt.natAbs = 38)) :
    roundSteps? n places = some (Value.ofExact "round"
      (nearestQuotient n.toInt (10 ^ places.toInt.natAbs) * 10 ^ places.toInt.natAbs)) := by
  rw [roundSteps?, if_neg negative, widePower?_of_le few]
  generalize places.toInt.natAbs = exponent at few apart ⊢
  have quotient := natAbs_quotient_lt n (10 ^ exponent)
  have twice := twice_rest_lt few apart
  have rounds := halfEven_nearestQuotient (ten_pow_pos exponent) n.toInt
  dsimp only
  rw [wide?_of_natAbs_lt (Nat.lt_of_le_of_lt quotient (by decide)),
    wide?_of_natAbs_lt (n := n.toInt % 10 ^ exponent) (by omega)]
  simp only [Option.bind_eq_bind, Option.bind_some, wide?_of_natAbs_lt twice, corrected?_eq,
    wide?_of_natAbs_lt (natAbs_multiple_lt few rounds)]
  rfl

/-- With 38 places, twice the remainder of a negative number leaves the wide words.  Wrapped around
it is negative, so the quotient stays as it is, and its multiple is no word. -/
theorem roundSteps?_negative (negative : n < 0) :
    roundSteps? n (-38) = none ∧ roundInt n (-38) = .error (.overflow "round") := by
  have bounds := fitsWord_toInt n
  have quotient := natAbs_quotient_lt n (10 ^ 38)
  rw [Value.lt_zero_iff] at negative
  unfold FitsWord at bounds
  have rest : n.toInt % 10 ^ 38 = n.toInt + 10 ^ 38 := by
    rw [← Int.add_emod_right, Int.emod_eq_of_lt (by omega) (by omega)]
  constructor
  · have twice : wide? (2 * (n.toInt + 10 ^ 38)) = none := by
      apply if_neg
      omega
    have exponent : (-38 : Int64).toInt.natAbs = 38 := rfl
    rw [roundSteps?, if_neg (by decide), exponent, widePower?_of_le (Nat.le_refl 38)]
    dsimp only
    rw [rest, wide?_of_natAbs_lt (Nat.lt_of_le_of_lt quotient (by decide)),
      wide?_of_natAbs_lt (n := n.toInt + 10 ^ 38) (by omega)]
    simp only [Option.bind_eq_bind, Option.bind_some, twice]
    rfl
  · have whole : n.toInt / 10 ^ 38 = -1 := by
      have parts := Int.emod_add_ediv_mul n.toInt (10 ^ 38)
      omega
    have wraps : (BitVec.ofInt 128 (2 * (n.toInt + 10 ^ 38))).toInt =
        2 * (n.toInt + 10 ^ 38) - 2 ^ 128 := by
      rw [BitVec.toInt_ofInt, ← Int.sub_bmod_right, Int.bmod_eq_of_le (by omega) (by omega)]
      rfl
    have multiple : nearestMultiple n.toInt 38 = -10 ^ 38 := by
      have unit : ((Nat.pow 10 38 : Nat) : Int) = 10 ^ 38 := rfl
      rw [nearestMultiple, if_neg (by decide), unit]
      dsimp only
      rw [whole, rest, wraps, if_neg (by omega)]
      rfl
    have exponent : (-38 : Int).natAbs = 38 := rfl
    rw [roundInt, if_neg (by decide), exponent, multiple]
    rfl

end Steps

theorem roundInt_halfEven {n : Int64} {places : Int} (negative : ¬ 0 ≤ places)
    (apart : ¬ (n < 0 ∧ places.natAbs = 38)) :
    ∃ q, HalfEven n.toInt (10 ^ places.natAbs) q ∧
      roundInt n places = Value.ofExact "round" (q * 10 ^ places.natAbs) := by
  obtain ⟨q, rounds, multiple⟩ := nearestMultiple_halfEven apart
  exact ⟨q, rounds, by rw [roundInt, if_neg negative, multiple]⟩

theorem zero_le_iff (word : Int64) : 0 ≤ word ↔ 0 ≤ word.toInt := by
  rw [Int64.le_iff_toInt_le, Int64.toInt_zero]

theorem ne_thirtyEight {n places : Int64} (apart : ¬ (n < 0 ∧ places = -38))
    (negative : ¬ 0 ≤ places.toInt) : ¬ (n < 0 ∧ places.toInt.natAbs = 38) := by
  rintro ⟨below, least⟩
  refine apart ⟨below, Int64.toInt_inj.mp ?_⟩
  change places.toInt = -38
  omega

theorem roundSteps?_eq {n places : Int64} (apart : ¬ (n < 0 ∧ places = -38)) :
    roundSteps? n places = some (roundInt n places.toInt) := by
  by_cases natural : 0 ≤ places
  · rw [roundSteps?, if_pos natural, roundInt, if_pos ((zero_le_iff places).mp natural)]
  have negative := mt (zero_le_iff places).mpr natural
  by_cases few : places.toInt.natAbs ≤ 38
  · have apart' := ne_thirtyEight apart negative
    obtain ⟨q, rounds, result⟩ := roundInt_halfEven negative apart'
    have positive := ten_pow_pos places.toInt.natAbs
    have same := rounds.unique positive (halfEven_nearestQuotient positive n.toInt)
    rw [roundSteps?_of_le natural few apart', result, same]
  · rw [roundSteps?, if_neg natural, widePower?_of_lt (by omega), roundInt, if_neg negative,
      nearestMultiple, if_pos (by omega)]
    rfl

/-- Rounding an integer to places gives the integer itself for no negative number of places, and
otherwise the one nearest multiple of the power of ten, a tie going to the even multiple, or an
overflow if that multiple is no word.  No step of the machine fails on the way. -/
theorem round_integer_exactly (n places : Int64) (apart : ¬ (n < 0 ∧ places = -38)) :
    (0 ≤ places → round.resultOf [.int n, .int places] = .ok (.int n)) ∧
    (places < 0 → ∃ q,
      (∀ other, HalfEven n.toInt (10 ^ places.toInt.natAbs) other ↔ other = q) ∧
      Value.Exactly "round" (q * 10 ^ places.toInt.natAbs)
        (round.resultOf [.int n, .int places])) ∧
    roundSteps? n places = some (round.resultOf [.int n, .int places]) := by
  change (_ → roundInt n places.toInt = _) ∧ (_ → ∃ q, _ ∧ Value.Exactly _ _ (roundInt _ _)) ∧
    _ = some (roundInt n places.toInt)
  refine ⟨fun natural => if_pos ((zero_le_iff places).mp natural), fun negative => ?_,
    roundSteps?_eq apart⟩
  rw [Value.lt_zero_iff] at negative
  have below := Int.not_le.mpr negative
  obtain ⟨q, rounds, result⟩ := roundInt_halfEven below (ne_thirtyEight apart below)
  refine ⟨q, fun other => ⟨rounds.unique (ten_pow_pos _), fun same => same ▸ rounds⟩, ?_⟩
  rw [result]
  exact Value.ofExact_exactly _ _

/-- A tie goes up to the even multiple `-20`, and the nearest multiple of `10 ^ 19` to the greatest
word is no word. -/
theorem round_integer_tie_and_overflow :
    ¬ ((-25 : Int64) < 0 ∧ (-1 : Int64) = -38) ∧
    roundSteps? (-25) (-1) = some (.ok (.int (-20))) ∧
    ¬ (Int64.maxValue < 0 ∧ (-19 : Int64) = -38) ∧
    (∃ q, (∀ other, HalfEven Int64.maxValue.toInt (10 ^ 19) other ↔ other = q) ∧
      Value.Exactly "round" (q * 10 ^ 19) (round.resultOf [.int Int64.maxValue, .int (-19)])) ∧
    roundSteps? Int64.maxValue (-19) = some (.error (.overflow "round")) := by
  have apart : ¬ ((-25 : Int64) < 0 ∧ (-1 : Int64) = -38) := by decide
  have apart' : ¬ (Int64.maxValue < 0 ∧ (-19 : Int64) = -38) := by decide
  obtain ⟨_, _, tie⟩ := round_integer_exactly (-25) (-1) apart
  obtain ⟨_, nearest, leaves⟩ := round_integer_exactly Int64.maxValue (-19) apart'
  exact ⟨apart, tie.trans (by decide +kernel), apart', nearest (by decide),
    leaves.trans (by decide +kernel)⟩

end Builtin

end LessonScript
