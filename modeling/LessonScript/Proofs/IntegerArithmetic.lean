import LessonScript.Machine.Calls
import Mathlib.Algebra.Order.Floor.Ring
import Mathlib.Data.Rat.Floor
import Mathlib.Tactic.FieldSimp
import Mathlib.Tactic.Linarith

/-!
Integer arithmetic is exact or overflows.

`Exactly` says what an operator does whose exact result is a given integer.  The quotient of two
integers is the floor of the rational quotient, and the remainder is that of this division
(`fdiv_eq_floor`).

A machine has only the division that truncates, and corrects what it gives.  `quotientSteps?` and
`remainderSteps?` are the operators step by step on words, where a step that leaves the words or
divides by zero has no result; they always have one, and it is that of the operators
(`quotientSteps?_eq`, `remainderSteps?_eq`).
-/

namespace LessonScript

/-- The integer has a form as a word of 64 bits. -/
def FitsWord (n : Int) : Prop :=
  -2 ^ 63 ≤ n ∧ n < 2 ^ 63

theorem fitsWord_toInt (word : Int64) : FitsWord word.toInt :=
  ⟨word.le_toInt, word.toInt_lt⟩

theorem checkedInt64_of_fits {n : Int} (fits : FitsWord n) :
    ∃ word : Int64, word.toInt = n ∧ checkedInt64 n = some word := by
  have inRange : Int64.minValue.toInt ≤ n ∧ n ≤ Int64.maxValue.toInt := by
    rw [Int64.toInt_minValue, Int64.toInt_maxValue]
    unfold FitsWord at fits
    omega
  have checked : checkedInt64 n = some (Int64.ofInt n) := if_pos inRange
  exact ⟨_, checkedInt64_eq_some_iff.mp checked, checked⟩

theorem checkedInt64_of_not_fits {n : Int} (leaves : ¬ FitsWord n) : checkedInt64 n = none := by
  cases checked : checkedInt64 n with
  | none => rfl
  | some word =>
      rw [← checkedInt64_eq_some_iff.mp checked] at leaves
      exact absurd (fitsWord_toInt word) leaves

namespace Value

/-- What the named operator gives where the exact result is `n`: that integer if it is a word,
and an overflow if it is none. -/
structure Exactly (op : String) (n : Int) (result : Except Fault Value) : Prop where
  fits : FitsWord n → ∃ word : Int64, word.toInt = n ∧ result = .ok (.int word)
  leaves : ¬ FitsWord n → result = .error (.overflow op)

theorem ofExact_exactly (op : String) (n : Int) : Exactly op n (ofExact op n) := by
  constructor
  · intro fits
    obtain ⟨word, same, checked⟩ := checkedInt64_of_fits fits
    exact ⟨word, same, by rw [ofExact, checked]⟩
  · intro leaves
    rw [ofExact, checkedInt64_of_not_fits leaves]

theorem Exactly.eq_of_ok {op : String} {n : Int} {result : Except Fault Value} {word : Int64}
    (exact : Exactly op n result) (done : result = .ok (.int word)) : word.toInt = n := by
  by_cases fits : FitsWord n
  · obtain ⟨other, same, gives⟩ := exact.fits fits
    cases done.symm.trans gives
    exact same
  · cases done.symm.trans (exact.leaves fits)

theorem Exactly.ne_divisionByZero {op : String} {n : Int} {result : Except Fault Value}
    (exact : Exactly op n result) : result ≠ .error (.arithmetic .divisionByZero) := by
  intro failed
  by_cases fits : FitsWord n
  · obtain ⟨word, _, gives⟩ := exact.fits fits
    cases failed.symm.trans gives
  · cases failed.symm.trans (exact.leaves fits)

theorem toInt_ne_zero {b : Int64} (nonzero : b ≠ 0) : b.toInt ≠ 0 := by
  rw [← Int64.toInt_zero]
  exact mt Int64.toInt_inj.mp nonzero

theorem lt_zero_iff (word : Int64) : word < 0 ↔ word.toInt < 0 := by
  rw [Int64.lt_iff_toInt_lt, Int64.toInt_zero]

theorem fmod_between (a : Int) {b : Int} (nonzero : b ≠ 0) :
    (0 < b ∧ 0 ≤ a.fmod b ∧ a.fmod b < b) ∨ (b < 0 ∧ b < a.fmod b ∧ a.fmod b ≤ 0) := by
  rcases Int.lt_or_gt_of_ne nonzero with negative | positive
  · have low := Int.fmod_nonneg_of_pos (-a) (b := -b) (by omega)
    have high := Int.fmod_lt_of_pos (-a) (b := -b) (by omega)
    rw [Int.neg_fmod_neg] at low high
    exact .inr ⟨negative, by omega, by omega⟩
  · exact .inl ⟨positive, Int.fmod_nonneg_of_pos a positive, Int.fmod_lt_of_pos a positive⟩

theorem fdiv_eq_floor (a : Int) {b : Int} (nonzero : b ≠ 0) : a.fdiv b = ⌊(a : ℚ) / b⌋ := by
  have whole : (b : ℚ) * a.fdiv b + a.fmod b = a := by exact_mod_cast Int.mul_fdiv_add_fmod a b
  have split : (a : ℚ) / b = a.fdiv b + a.fmod b / b := by
    have nonzero : (b : ℚ) ≠ 0 := by exact_mod_cast nonzero
    field_simp
    linarith
  symm
  rw [Int.floor_eq_iff, split]
  rcases fmod_between a nonzero with ⟨positive, low, high⟩ | ⟨negative, low, high⟩
  · have positive : (0 : ℚ) < b := by exact_mod_cast positive
    have fraction : (a.fmod b : ℚ) / b < 1 := (div_lt_one positive).mpr (by exact_mod_cast high)
    have atLeast : 0 ≤ (a.fmod b : ℚ) / b := div_nonneg (by exact_mod_cast low) positive.le
    exact ⟨by linarith, by linarith⟩
  · have negative : (b : ℚ) < 0 := by exact_mod_cast negative
    have fraction : (a.fmod b : ℚ) / b < 1 :=
      (div_lt_one_of_neg negative).mpr (by exact_mod_cast low)
    have atLeast : 0 ≤ (a.fmod b : ℚ) / b :=
      div_nonneg_of_nonpos (by exact_mod_cast high) negative.le
    exact ⟨by linarith, by linarith⟩

theorem floorDivide_exactly (a : Int64) {b : Int64} (nonzero : b ≠ 0) :
    Exactly "//" ⌊(a.toInt : ℚ) / b.toInt⌋ (arith .floorDivide (.int a) (.int b)) := by
  rw [← fdiv_eq_floor _ (toInt_ne_zero nonzero)]
  change Exactly "//" _ (if b = 0 then _ else _)
  rw [if_neg nonzero]
  exact ofExact_exactly _ _

theorem modulo_exactly (a : Int64) {b : Int64} (nonzero : b ≠ 0) :
    Exactly "%" (a.toInt - b.toInt * ⌊(a.toInt : ℚ) / b.toInt⌋)
      (arith .modulo (.int a) (.int b)) := by
  rw [← fdiv_eq_floor _ (toInt_ne_zero nonzero), ← Int.fmod_def]
  change Exactly "%" _ (if b = 0 then _ else _)
  rw [if_neg nonzero]
  exact ofExact_exactly _ _

/-- The remainder is always a word, has the sign of the divisor and is smaller, and completes the
quotient. -/
theorem remainder_completes (a : Int64) {b : Int64} (nonzero : b ≠ 0) :
    ∃ r : Int64, arith .modulo (.int a) (.int b) = .ok (.int r) ∧
      (r = 0 ∨ (r < 0 ↔ b < 0)) ∧ |r.toInt| < |b.toInt| ∧
      ∀ q, arith .floorDivide (.int a) (.int b) = .ok (.int q) →
        q.toInt * b.toInt + r.toInt = a.toInt ∧
        ∀ p, arith .multiply (.int q) (.int b) = .ok p →
          arith .add p (.int r) = .ok (.int a) := by
  have divisor := toInt_ne_zero nonzero
  have between := fmod_between a.toInt divisor
  have exact := modulo_exactly a nonzero
  rw [← fdiv_eq_floor _ divisor, ← Int.fmod_def] at exact
  have bounds := fitsWord_toInt b
  obtain ⟨r, rest, gives⟩ := exact.fits (by unfold FitsWord at bounds ⊢; omega)
  refine ⟨r, gives, ?_, ?_, fun q divided => ?_⟩
  · rw [← Int64.toInt_inj, Int64.toInt_zero, lt_zero_iff, lt_zero_iff, rest]
    omega
  · rw [rest]
    rcases between with ⟨positive, low, high⟩ | ⟨negative, low, high⟩
    · rwa [abs_of_nonneg low, abs_of_pos positive]
    · rw [abs_of_nonpos high, abs_of_neg negative]
      omega
  · have quotient := (floorDivide_exactly a nonzero).eq_of_ok divided
    rw [← fdiv_eq_floor _ divisor] at quotient
    have whole : q.toInt * b.toInt + r.toInt = a.toInt := by
      rw [quotient, rest, Int.mul_comm]
      exact Int.mul_fdiv_add_fmod a.toInt b.toInt
    refine ⟨whole, fun p multiplied => ?_⟩
    have product := ofExact_exactly "*" (q.toInt * b.toInt)
    change ofExact "*" (q.toInt * b.toInt) = .ok p at multiplied
    by_cases fits : FitsWord (q.toInt * b.toInt)
    · obtain ⟨word, same, made⟩ := product.fits fits
      cases multiplied.symm.trans made
      change ofExact "+" (word.toInt + r.toInt) = _
      rw [same, whole, ofExact, checkedInt64_toInt]
    · cases multiplied.symm.trans (product.leaves fits)

/-- The quotient that a machine finds, which truncates; there is none for a zero divisor, and none
for the least word divided by minus one. -/
def truncated? (a b : Int64) : Option Int64 :=
  if b = 0 then none else checkedInt64 (a.toInt.tdiv b.toInt)

/-- The remainder that goes with the truncated quotient; there is none where the quotient is
missing. -/
def truncatedRest? (a b : Int64) : Option Int64 :=
  (truncated? a b).bind fun _ => checkedInt64 (a.toInt.tmod b.toInt)

/-- The quotient rounded down, step by step: a quotient that the machine refuses is an overflow,
and one that was rounded up is lowered by one. -/
def quotientSteps? (a b : Int64) : Option (Except Fault Value) :=
  if b = 0 then some (.error (.arithmetic .divisionByZero))
  else
    match truncated? a b with
    | none => some (.error (.overflow "//"))
    | some q => do
      let r ← truncatedRest? a b
      if r ≠ 0 ∧ ¬ (a < 0 ↔ b < 0) then
        return .ok (.int (← checkedInt64 (q.toInt - 1)))
      else return .ok (.int q)

/-- The remainder step by step: the wrapping remainder of words, to which the divisor is added if
it has the other sign. -/
def remainderSteps? (a b : Int64) : Option (Except Fault Value) :=
  if b = 0 then some (.error (.arithmetic .divisionByZero))
  else do
    let r := a % b
    if r ≠ 0 ∧ ¬ (r < 0 ↔ b < 0) then
      return .ok (.int (← checkedInt64 (r.toInt + b.toInt)))
    else return .ok (.int r)

section Truncation

variable (a : Int) {b : Int}

theorem natAbs_tmod_lt (nonzero : b ≠ 0) : (a.tmod b).natAbs < b.natAbs := by
  rw [Int.natAbs_tmod]
  exact Nat.mod_lt _ (Int.natAbs_pos.mpr nonzero)

theorem tmod_sign (b : Int) : (0 ≤ a → 0 ≤ a.tmod b) ∧ (a ≤ 0 → a.tmod b ≤ 0) := by
  refine ⟨Int.tmod_nonneg b, fun negative => ?_⟩
  have mirrored := Int.tmod_nonneg b (Int.neg_nonneg_of_nonpos negative)
  rw [Int.neg_tmod] at mirrored
  omega

/-- A truncated remainder of the wrong sign goes with a quotient that was rounded up. -/
theorem floored_of_astray (astray : a.tmod b ≠ 0 ∧ ¬ (a.tmod b < 0 ↔ b < 0)) (nonzero : b ≠ 0) :
    a.fdiv b = a.tdiv b - 1 ∧ a.fmod b = a.tmod b + b := by
  have whole := Int.mul_tdiv_add_tmod a b
  have small := natAbs_tmod_lt a nonzero
  have shifted : a.tmod b + b + b * (a.tdiv b - 1) = a := by
    rw [Int.mul_sub, Int.mul_one]
    omega
  rcases Int.lt_or_gt_of_ne nonzero with negative | positive
  · exact (Int.fdiv_fmod_unique' negative).mpr ⟨shifted, by omega, by omega⟩
  · exact (Int.fdiv_fmod_unique positive).mpr ⟨shifted, by omega, by omega⟩

theorem floored_of_settled (settled : ¬ (a.tmod b ≠ 0 ∧ ¬ (a.tmod b < 0 ↔ b < 0)))
    (nonzero : b ≠ 0) : a.fdiv b = a.tdiv b ∧ a.fmod b = a.tmod b := by
  have whole := Int.mul_tdiv_add_tmod a b
  have small := natAbs_tmod_lt a nonzero
  rw [Int.add_comm] at whole
  rcases Int.lt_or_gt_of_ne nonzero with negative | positive
  · exact (Int.fdiv_fmod_unique' negative).mpr ⟨whole, by omega, by omega⟩
  · exact (Int.fdiv_fmod_unique positive).mpr ⟨whole, by omega, by omega⟩

end Truncation

section Steps

variable (a : Int64) {b : Int64}

theorem fitsWord_of_natAbs_le {n : Int} (small : n.natAbs ≤ 2 ^ 62) : FitsWord n := by
  unfold FitsWord
  omega

/-- Only a divisor of minus one makes a quotient leave the words, and there it is exact. -/
theorem fitsWord_tdiv (nonzero : b ≠ 0) : FitsWord (a.toInt.tdiv b.toInt) ∨
    a.toInt.fdiv b.toInt = a.toInt.tdiv b.toInt := by
  have bounds := fitsWord_toInt a
  have size := Int.natAbs_tdiv a.toInt b.toInt
  have divisor := toInt_ne_zero nonzero
  by_cases unit : b.toInt.natAbs = 1
  · refine .inr (floored_of_settled _ ?_ divisor).1
    have small := natAbs_tmod_lt a.toInt divisor
    omega
  · have half : a.toInt.natAbs / b.toInt.natAbs ≤ a.toInt.natAbs / 2 :=
      Nat.div_le_div_left (by omega) (by decide)
    change _ = a.toInt.natAbs / b.toInt.natAbs at size
    unfold FitsWord at bounds
    exact .inl (fitsWord_of_natAbs_le (by omega))

/-- A quotient with a remainder has a divisor of two or more, so it can be lowered. -/
theorem fitsWord_lowered (nonzero : b ≠ 0) (rest : a.toInt.tmod b.toInt ≠ 0) :
    FitsWord (a.toInt.tdiv b.toInt - 1) := by
  have bounds := fitsWord_toInt a
  have size := Int.natAbs_tdiv a.toInt b.toInt
  have small := natAbs_tmod_lt a.toInt (toInt_ne_zero nonzero)
  have half : a.toInt.natAbs / b.toInt.natAbs ≤ a.toInt.natAbs / 2 :=
    Nat.div_le_div_left (by omega) (by decide)
  change _ = a.toInt.natAbs / b.toInt.natAbs at size
  unfold FitsWord at bounds ⊢
  omega

theorem fitsWord_tmod (nonzero : b ≠ 0) : FitsWord (a.toInt.tmod b.toInt) := by
  have small := natAbs_tmod_lt a.toInt (toInt_ne_zero nonzero)
  have bounds := fitsWord_toInt b
  unfold FitsWord at bounds ⊢
  omega

theorem quotientSteps?_eq (b : Int64) :
    quotientSteps? a b = some (arith .floorDivide (.int a) (.int b)) := by
  change _ = some (if b = 0 then _ else ofExact "//" (a.toInt.fdiv b.toInt))
  unfold quotientSteps?
  by_cases zero : b = 0
  · rw [if_pos zero, if_pos zero]
  rw [if_neg zero, if_neg zero]
  have divisor := toInt_ne_zero zero
  cases found : truncated? a b with
  | none =>
      rw [truncated?, if_neg zero] at found
      have same : a.toInt.fdiv b.toInt = a.toInt.tdiv b.toInt := by
        refine (fitsWord_tdiv a zero).resolve_left fun fits => ?_
        obtain ⟨q, _, checked⟩ := checkedInt64_of_fits fits
        cases found.symm.trans checked
      rw [ofExact, same, found]
  | some q =>
      obtain ⟨r, rest, checked⟩ := checkedInt64_of_fits (fitsWord_tmod a zero)
      have quotient : q.toInt = a.toInt.tdiv b.toInt := by
        rw [truncated?, if_neg zero] at found
        exact checkedInt64_eq_some_iff.mp found
      have atRest : truncatedRest? a b = some r := by
        rw [truncatedRest?, found]
        exact checked
      have signs := tmod_sign a.toInt b.toInt
      -- Behind a remainder the dividend has the sign of the remainder.
      have same : (r ≠ 0 ∧ ¬ (a < 0 ↔ b < 0)) ↔
          (a.toInt.tmod b.toInt ≠ 0 ∧ ¬ (a.toInt.tmod b.toInt < 0 ↔ b.toInt < 0)) := by
        rw [ne_eq, ← Int64.toInt_inj, Int64.toInt_zero, lt_zero_iff, lt_zero_iff, rest]
        omega
      rw [atRest]
      by_cases astray : r ≠ 0 ∧ ¬ (a < 0 ↔ b < 0)
      · have below := (floored_of_astray a.toInt (same.mp astray) divisor).1
        obtain ⟨lowered, exact, checked⟩ :=
          checkedInt64_of_fits (fitsWord_lowered a zero (same.mp astray).1)
        rw [ofExact, below, checked]
        simp [astray, quotient, checked]
      · have exact := (floored_of_settled a.toInt (mt same.mpr astray) divisor).1
        rw [ofExact, exact, ← quotient, checkedInt64_toInt]
        simp [astray]

theorem remainderSteps?_eq (b : Int64) :
    remainderSteps? a b = some (arith .modulo (.int a) (.int b)) := by
  change _ = some (if b = 0 then _ else ofExact "%" (a.toInt.fmod b.toInt))
  unfold remainderSteps?
  by_cases zero : b = 0
  · rw [if_pos zero, if_pos zero]
  rw [if_neg zero, if_neg zero]
  have divisor := toInt_ne_zero zero
  have rest := Int64.toInt_mod a b
  have same : (a % b ≠ 0 ∧ ¬ (a % b < 0 ↔ b < 0)) ↔
      (a.toInt.tmod b.toInt ≠ 0 ∧ ¬ (a.toInt.tmod b.toInt < 0 ↔ b.toInt < 0)) := by
    rw [ne_eq, ← Int64.toInt_inj, Int64.toInt_zero, lt_zero_iff, lt_zero_iff, rest]
  by_cases astray : a % b ≠ 0 ∧ ¬ (a % b < 0 ↔ b < 0)
  · have shifted := (floored_of_astray a.toInt (same.mp astray) divisor).2
    have small := natAbs_tmod_lt a.toInt divisor
    have bounds := fitsWord_toInt b
    have wrong := same.mp astray
    obtain ⟨word, exact, checked⟩ := checkedInt64_of_fits
      (show FitsWord (a.toInt.tmod b.toInt + b.toInt) by unfold FitsWord at bounds ⊢; omega)
    rw [ofExact, shifted, checked]
    simp [astray, rest, checked]
  · have exact := (floored_of_settled a.toInt (mt same.mpr astray) divisor).2
    rw [ofExact, exact, ← rest, checkedInt64_toInt]
    simp [astray]

end Steps

/-- What the operators do with two integers: they give the exact result or overflow, and the
divisions refuse a zero divisor.  The remainder lies between zero and the divisor and completes
the quotient, and no step by which a machine divides fails. -/
theorem integers_exact (a b : Int64) :
    Exactly "+" (a.toInt + b.toInt) (arith .add (.int a) (.int b)) ∧
    Exactly "-" (a.toInt - b.toInt) (arith .subtract (.int a) (.int b)) ∧
    Exactly "*" (a.toInt * b.toInt) (arith .multiply (.int a) (.int b)) ∧
    Exactly "-" (-a.toInt) (negate (.int a)) ∧
    Exactly "abs" |a.toInt| (Builtin.abs.resultOf [.int a]) ∧
    (b ≠ 0 → Exactly "//" ⌊(a.toInt : ℚ) / b.toInt⌋ (arith .floorDivide (.int a) (.int b))) ∧
    (b ≠ 0 → Exactly "%" (a.toInt - b.toInt * ⌊(a.toInt : ℚ) / b.toInt⌋)
      (arith .modulo (.int a) (.int b))) ∧
    (∀ op, op = .floorDivide ∨ op = .modulo →
      (arith op (.int a) (.int b) = .error (.arithmetic .divisionByZero) ↔ b = 0)) ∧
    (b ≠ 0 → ∃ r : Int64, arith .modulo (.int a) (.int b) = .ok (.int r) ∧
      (r = 0 ∨ (r < 0 ↔ b < 0)) ∧ |r.toInt| < |b.toInt| ∧
      ∀ q, arith .floorDivide (.int a) (.int b) = .ok (.int q) →
        q.toInt * b.toInt + r.toInt = a.toInt ∧
        ∀ p, arith .multiply (.int q) (.int b) = .ok p →
          arith .add p (.int r) = .ok (.int a)) ∧
    quotientSteps? a b = some (arith .floorDivide (.int a) (.int b)) ∧
    remainderSteps? a b = some (arith .modulo (.int a) (.int b)) := by
  refine ⟨ofExact_exactly _ _, ofExact_exactly _ _, ofExact_exactly _ _, ofExact_exactly _ _, ?_,
    floorDivide_exactly a, modulo_exactly a, fun op division => ⟨fun failed => ?_, ?_⟩,
    remainder_completes a, quotientSteps?_eq a b, remainderSteps?_eq a b⟩
  · rw [← Int.natCast_natAbs]
    exact ofExact_exactly _ _
  · by_contra nonzero
    rcases division with rfl | rfl
    · exact (floorDivide_exactly a nonzero).ne_divisionByZero failed
    · exact (modulo_exactly a nonzero).ne_divisionByZero failed
  · rintro rfl
    rcases division with rfl | rfl <;> rfl

end Value

end LessonScript
