import LessonScript.Proofs.Rounding

/-!
The decimal that a floating point number is written as.

A multiple of a power of ten that is tested against the interval of a number lies in it
(`Binary64.Interval.holds_of_nearest?`), and with 17 digits there always is one.  So the shortest
decimal of a number lies in its interval (`Binary64.shortest_holds`).
-/

namespace LessonScript.Binary64

/-- The number that a decimal stands for. -/
def Decimal.value (d : Decimal) : ℚ :=
  d.digits * 10 ^ d.exponent

theorem zpow_toNat_mul {base : ℚ} (nonzero : base ≠ 0) (k : Int) :
    base ^ k.toNat = base ^ k * base ^ (-k).toNat := by
  rw [← zpow_natCast, ← zpow_natCast, ← zpow_add₀ nonzero]
  congr 1
  omega

theorem gridFactors_pos (unit grid : Int) : 0 < (gridFactors unit grid).2 :=
  Nat.mul_pos (Nat.pow_pos (by decide)) (Nat.pow_pos (by decide))

theorem gridFactors_scale (unit grid : Int) :
    ∃ scale : ℚ, 0 < scale ∧ (gridFactors unit grid).1 * scale = 2 ^ unit ∧
      (gridFactors unit grid).2 * scale = 10 ^ grid := by
  have two := zpow_toNat_mul (show (2 : ℚ) ≠ 0 by norm_num) unit
  have ten := zpow_toNat_mul (show (10 : ℚ) ≠ 0 by norm_num) grid
  refine ⟨(2 ^ (-unit).toNat * 10 ^ (-grid).toNat)⁻¹, by positivity, ?_, ?_⟩
  · unfold gridFactors
    push_cast [Nat.pow_eq]
    rw [two]
    field_simp
  · unfold gridFactors
    push_cast [Nat.pow_eq]
    rw [ten]
    field_simp

def Interval.hasMultiple (i : Interval) (grid : Int) (k : Nat) : Bool :=
  let (a, b) := gridFactors i.unit grid
  if i.closed then i.low * a ≤ k * b && k * b ≤ i.high * a
  else i.low * a < k * b && k * b < i.high * a

theorem Interval.hasMultiple_iff {i : Interval} {grid : Int} {k : Nat} :
    i.hasMultiple grid k = true ↔ i.Holds (k * 10 ^ grid) := by
  obtain ⟨scale, positive, two, ten⟩ := gridFactors_scale i.unit grid
  unfold hasMultiple Holds
  generalize gridFactors i.unit grid = factors at two ten ⊢
  obtain ⟨a, b⟩ := factors
  dsimp only at two ten ⊢
  rw [← two, ← ten, ← mul_assoc, ← mul_assoc, ← mul_assoc]
  split
  · rw [Bool.and_eq_true, decide_eq_true_eq, decide_eq_true_eq, mul_le_mul_iff_left₀ positive,
      mul_le_mul_iff_left₀ positive]
    exact_mod_cast Iff.rfl
  · rw [Bool.and_eq_true, decide_eq_true_eq, decide_eq_true_eq, mul_lt_mul_iff_left₀ positive,
      mul_lt_mul_iff_left₀ positive]
    exact_mod_cast Iff.rfl

theorem Interval.holds_of_nearest? {i : Interval} {grid : Int} {k : Nat}
    (found : i.nearest? grid = some k) : i.Holds (k * 10 ^ grid) := by
  rw [← hasMultiple_iff]
  unfold nearest? at found
  dsimp only at found
  split at found
  · rename_i atBelow atAbove
    split at found <;> cases found
    · exact atBelow
    · exact atAbove
  · rename_i atBelow _
    cases found
    exact atBelow
  · rename_i _ atAbove
    cases found
    exact atAbove
  · cases found

theorem Interval.Holds.of_lt {i : Interval} {q : ℚ} (low : i.low * 2 ^ i.unit < q)
    (high : q < i.high * 2 ^ i.unit) : i.Holds q := by
  unfold Holds
  split
  · exact ⟨le_of_lt low, le_of_lt high⟩
  · exact ⟨low, high⟩

theorem Interval.nearest?_isSome_of_holds {i : Interval} {grid : Int} {below : Nat}
    (same : i.value * (gridFactors i.unit grid).1 / (gridFactors i.unit grid).2 = below)
    (inside : i.Holds (below * 10 ^ grid) ∨ i.Holds ((below + 1 : Nat) * 10 ^ grid)) :
    (i.nearest? grid).isSome = true := by
  rw [← hasMultiple_iff, ← hasMultiple_iff] at inside
  subst same
  unfold nearest?
  dsimp only
  split
  · split <;> rfl
  · rfl
  · rfl
  · rename_i notBelow notAbove
    rcases inside with atBelow | atAbove
    · cases atBelow.symm.trans notBelow
    · cases atAbove.symm.trans notAbove

/-- A grid whose step is less than twice the distance to both ends has a point in the interval. -/
theorem Interval.nearest?_isSome {i : Interval} {grid : Int}
    (low : (10 : ℚ) ^ grid < 2 * (i.value - i.low) * 2 ^ i.unit)
    (high : (10 : ℚ) ^ grid < 2 * (i.high - i.value) * 2 ^ i.unit) :
    (i.nearest? grid).isSome = true := by
  obtain ⟨scale, positive, two, ten⟩ := gridFactors_scale i.unit grid
  have step := gridFactors_pos i.unit grid
  refine nearest?_isSome_of_holds rfl ?_
  generalize gridFactors i.unit grid = factors at two ten step ⊢
  obtain ⟨a, b⟩ := factors
  dsimp only at two ten step ⊢
  have floor : i.value * a / b * b ≤ i.value * a := Nat.div_mul_le_self _ _
  have next : i.value * a < (i.value * a / b + 1) * b := by
    rw [Nat.add_mul, Nat.one_mul]
    exact Nat.lt_div_mul_add step
  generalize i.value * a / b = below at floor next ⊢
  have floor' : (below : ℚ) * 10 ^ grid ≤ i.value * 2 ^ i.unit := by
    rw [← two, ← ten, ← mul_assoc, ← mul_assoc, mul_le_mul_iff_left₀ positive]
    exact_mod_cast floor
  have next' : i.value * 2 ^ i.unit < ((below : ℚ) + 1) * 10 ^ grid := by
    rw [← two, ← ten, ← mul_assoc, ← mul_assoc, mul_lt_mul_iff_left₀ positive]
    exact_mod_cast next
  -- The nearer one of the two neighbours lies inside.
  by_cases near : 2 * (i.value * 2 ^ i.unit - (below : ℚ) * 10 ^ grid) ≤ 10 ^ grid
  · exact .inl (.of_lt (by linarith) (by linarith))
  · right
    push_cast
    exact .of_lt (by linarith) (by linarith)

theorem pow_le_of_length_toDigits {n : Nat} (positive : 0 < n) :
    10 ^ ((Nat.toDigits 10 n).length - 1) ≤ n := by
  rcases Nat.eq_zero_or_pos ((Nat.toDigits 10 n).length - 1) with single | several
  · rw [single]
    exact positive
  · by_contra small
    have := (Nat.length_toDigits_le_iff (by decide) several).mpr (Nat.lt_of_not_le small)
    omega

/-- The count of steps is the first power of ten that brings the quotient up to one, if one of the
tested powers does. -/
theorem leadingBelowOne_spec {n d : Nat} (steps power : Nat) (reached : d ≤ 10 ^ steps * n) :
    ∃ k, leadingBelowOne n d steps power = -((power + k : Nat) : Int) ∧ d ≤ 10 ^ k * n := by
  induction steps generalizing n power with
  | zero => exact ⟨0, rfl, reached⟩
  | succ steps ih =>
      unfold leadingBelowOne
      split
      · exact ⟨0, rfl, by omega⟩
      · obtain ⟨k, same, reached'⟩ := ih (n := 10 * n) (power + 1) (by
          rw [← Nat.mul_assoc, ← Nat.pow_succ]
          exact reached)
        refine ⟨k + 1, ?_, ?_⟩
        · rw [same]
          congr 2
          omega
        · rw [Nat.pow_succ, Nat.mul_assoc]
          exact reached'

/-- No number other than zero is so small that its leading digit is not found. -/
theorem inUnits_le {x : Binary64} (some : 0 < x.significand) {steps : Nat} (many : 400 ≤ steps) :
    (inUnits x.significand 1 (-x.exponent)).2 ≤
      10 ^ steps * (inUnits x.significand 1 (-x.exponent)).1 := by
  have least := x.le_exponent
  unfold inUnits
  split
  · calc 1 * Nat.pow 2 (-x.exponent).toNat = 2 ^ (-x.exponent).toNat := Nat.one_mul _
      _ ≤ 2 ^ (3 * steps) := Nat.pow_le_pow_right (by decide) (by omega)
      _ = (2 ^ 3) ^ steps := Nat.pow_mul 2 3 steps
      _ ≤ 10 ^ steps := Nat.pow_le_pow_left (by decide) steps
      _ ≤ 10 ^ steps * x.significand := Nat.le_mul_of_pos_right _ some
  · exact Nat.mul_pos (Nat.pow_pos (by decide))
      (Nat.mul_pos some (Nat.pow_pos (by decide)))

theorem leadingExponent_le {x : Binary64} (some : 0 < x.significand) :
    (10 : ℚ) ^ x.leadingExponent ≤ x.significand * 2 ^ x.exponent := by
  have ratio := inUnits_div x.significand 1 (-x.exponent)
  have positive := inUnits_pos x.significand Nat.one_pos (-x.exponent)
  rw [zpow_neg, div_inv_eq_mul, Nat.cast_one, div_one] at ratio
  have bound := inUnits_le some (Nat.le_refl 400)
  unfold leadingExponent
  generalize inUnits x.significand 1 (-x.exponent) = quotient at ratio positive bound ⊢
  obtain ⟨n, d⟩ := quotient
  dsimp only at ratio positive bound ⊢
  have positive' : (0 : ℚ) < d := by exact_mod_cast positive
  rw [← ratio]
  split
  · rename_i large
    have whole : 0 < n / d := Nat.div_pos large positive
    have digits := pow_le_of_length_toDigits whole
    have length : 0 < (Nat.toDigits 10 (n / d)).length := by
      rw [List.length_pos_iff]
      exact Nat.toDigits_ne_nil
    rw [show ((Nat.toDigits 10 (n / d)).length : Int) - 1 =
      ((Nat.toDigits 10 (n / d)).length - 1 : Nat) by omega, zpow_natCast, le_div_iff₀ positive']
    have : 10 ^ ((Nat.toDigits 10 (n / d)).length - 1) * d ≤ n :=
      Nat.le_trans (Nat.mul_le_mul_right d digits) (Nat.div_mul_le_self n d)
    exact_mod_cast this
  · obtain ⟨k, same, reached⟩ := leadingBelowOne_spec 400 0 bound
    rw [same, Nat.zero_add, zpow_neg, zpow_natCast, le_div_iff₀ positive', inv_mul_le_iff₀
      (by positivity)]
    exact_mod_cast reached

theorem nearest?_isSome_of_leading {x : Binary64} (some : 0 < x.significand) :
    (x.interval.nearest? (x.leadingExponent - (16 : Nat))).isSome = true := by
  have two : (2 : ℚ) ≠ 0 := by norm_num
  have leading := leadingExponent_le some
  have unit : (0 : ℚ) < 2 ^ x.exponent := by positivity
  have quarter : (2 : ℚ) ^ x.interval.unit = 2 ^ x.exponent / 4 := by
    change (2 : ℚ) ^ (x.exponent - 2) = _
    rw [zpow_sub₀ two]
    norm_num
  have value : (x.interval.value : ℚ) = 4 * x.significand := by simp [interval]
  have high : (x.interval.high : ℚ) = 4 * x.significand + 2 := by simp [interval]
  have short : (x.significand : ℚ) < 2 ^ 53 := by
    have := x.significand_lt
    unfold fieldWeight at this
    exact_mod_cast this
  have grid : (10 : ℚ) ^ (x.leadingExponent - (16 : Nat)) = 10 ^ x.leadingExponent / 10 ^ 16 := by
    rw [zpow_sub₀ (by norm_num), zpow_natCast]
  -- The step of the grid is below the last place of the number, and below half of it where the
  -- numbers lie closer on one side.
  have whole : (10 : ℚ) ^ (x.leadingExponent - (16 : Nat)) < 2 ^ x.exponent := by
    rw [grid, div_lt_iff₀ (by positivity)]
    have := mul_lt_mul_of_pos_right short unit
    norm_num at this ⊢
    linarith
  apply Interval.nearest?_isSome
  · rw [interval_low some, value, quarter]
    split
    · rename_i narrow
      rw [narrow.1] at leading
      rw [grid, div_lt_iff₀ (by positivity)]
      norm_num [fieldWeight] at leading ⊢
      linarith
    · refine lt_of_lt_of_eq whole ?_
      ring
  · rw [high, value, quarter]
    refine lt_of_lt_of_eq whole ?_
    ring

theorem shortest_cases (x : Binary64) :
    (∃ (k : Nat) (digits : Nat), k < 17 ∧
      x.interval.nearest? (x.leadingExponent - k) = some digits ∧
      x.shortest = ⟨digits, x.leadingExponent - k⟩) ∨
    ((∀ k : Nat, k < 17 → x.interval.nearest? (x.leadingExponent - k) = none) ∧
      x.shortest = ⟨x.significand, 0⟩) := by
  unfold shortest
  dsimp only
  cases hit : (List.range 17).findSome? fun (k : Nat) =>
      (x.interval.nearest? (x.leadingExponent - k)).map fun digits =>
        Decimal.mk digits (x.leadingExponent - k) with
  | none =>
      refine .inr ⟨fun k few => ?_, rfl⟩
      have missed := List.findSome?_eq_none_iff.mp hit k (List.mem_range.mpr few)
      exact Option.map_eq_none_iff.mp missed
  | some d =>
      obtain ⟨k, inside, found⟩ := List.exists_of_findSome?_eq_some hit
      obtain ⟨digits, nearest, rfl⟩ := Option.map_eq_some_iff.mp found
      exact .inl ⟨k, digits, List.mem_range.mp inside, nearest, rfl⟩

theorem shortest_holds {x : Binary64} (some : 0 < x.significand) :
    x.interval.Holds x.shortest.value := by
  obtain ⟨k, digits, _, nearest, same⟩ | ⟨missed, _⟩ := x.shortest_cases
  · rw [same]
    exact Interval.holds_of_nearest? nearest
  · have found := nearest?_isSome_of_leading some
    rw [missed 16 (by decide)] at found
    cases found

end LessonScript.Binary64
