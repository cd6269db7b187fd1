import LessonScript.Binary64.Reading
import LessonScript.Proofs.Digits
import LessonScript.Proofs.ShortestDecimal

/-!
The text of a floating point number is read back as the number.

A numeral whose number lies in the interval of a finite number is read as that number, whatever
its form (`Binary64.ofNumeral_of_holds`).  Both forms of the text of a number are numerals for its
shortest decimal (`Binary64.denotes_magnitudeChars`), so reading inverts writing
(`Binary64.ofChars?_chars`).
-/

namespace LessonScript.Binary64

open Text

/-! ### The order of magnitude -/

theorem two_zpow_le_ten_zpow {k : Int} (up : 0 ≤ k) : (2 : ℚ) ^ (3 * k) ≤ 10 ^ k := by
  obtain ⟨n, rfl⟩ := Int.eq_ofNat_of_zero_le up
  rw [zpow_mul, zpow_natCast, zpow_natCast]
  exact pow_le_pow_left₀ (by norm_num) (by norm_num) n

theorem ten_zpow_le_two_zpow {k : Int} (down : k ≤ 0) : (10 : ℚ) ^ k ≤ 2 ^ (3 * k) := by
  have inverse := two_zpow_le_ten_zpow (show 0 ≤ -k by omega)
  rw [mul_neg, zpow_neg, zpow_neg] at inverse
  exact (inv_le_inv₀ (by positivity) (by positivity)).mp inverse

theorem exponent_le {x : Binary64} (finite : x.isFinite = true) : x.exponent ≤ 971 := by
  unfold isFinite infiniteMagnitude at finite
  rw [decide_eq_true_eq] at finite
  have field : x.exponentField < 2047 :=
    (Nat.div_lt_iff_lt_mul (by decide)).mpr finite
  unfold exponent
  split <;> omega

/-- What lies in the interval of a finite number is not far out of the range of the type. -/
theorem Near.bounds {x : Binary64} (finite : x.isFinite = true) (some : 0 < x.significand) {q : ℚ}
    (near : x.Near q) : (2 : ℚ) ^ (-1075 : Int) ≤ q ∧ q < 2 ^ (1024 : Int) := by
  have two : (2 : ℚ) ≠ 0 := by norm_num
  have unit : (0 : ℚ) < 2 ^ x.exponent := by positivity
  obtain ⟨low, high, _, _⟩ := near
  rw [le_div_iff₀ unit] at low
  rw [div_le_iff₀ unit] at high
  constructor
  · have least : (2 : ℚ) ^ (-1074 : Int) ≤ 2 ^ x.exponent :=
      zpow_le_zpow_right₀ (by norm_num) x.le_exponent
    have one : (1 : ℚ) / 2 ≤ x.significand - 1 / 2 := by
      have : (1 : ℚ) ≤ x.significand := by exact_mod_cast some
      linarith
    calc (2 : ℚ) ^ (-1075 : Int) = 1 / 2 * 2 ^ (-1074 : Int) := by
          rw [show (-1075 : Int) = -1 + -1074 by norm_num, zpow_add₀ two]
          norm_num
      _ ≤ (x.significand - 1 / 2) * 2 ^ x.exponent := by gcongr
      _ ≤ q := low
  · have most : (2 : ℚ) ^ x.exponent ≤ 2 ^ (971 : Int) :=
      zpow_le_zpow_right₀ (by norm_num) (exponent_le finite)
    have short : (x.significand : ℚ) + 1 / 2 < 2 ^ (53 : Int) := by
      have below := x.significand_lt
      unfold fieldWeight at below
      have : (x.significand : ℚ) + 1 ≤ 2 ^ 53 := by
        exact_mod_cast Nat.succ_le_of_lt below
      norm_num at this ⊢
      linarith
    calc q ≤ (x.significand + 1 / 2) * 2 ^ x.exponent := high
      _ ≤ (x.significand + 1 / 2) * 2 ^ (971 : Int) := by gcongr
      _ < 2 ^ (53 : Int) * 2 ^ (971 : Int) := by gcongr
      _ = 2 ^ (1024 : Int) := by rw [← zpow_add₀ two]; norm_num

theorem Near.lt_400 {x : Binary64} (finite : x.isFinite = true) (some : 0 < x.significand)
    {q : ℚ} (near : x.Near q) {k : Int} (reached : (10 : ℚ) ^ k ≤ q) : k < 400 := by
  by_contra far
  have growth := two_zpow_le_ten_zpow (show 0 ≤ k by omega)
  have more : (2 : ℚ) ^ (1024 : Int) ≤ 2 ^ (3 * k) :=
    zpow_le_zpow_right₀ (by norm_num) (by omega)
  have := (near.bounds finite some).2
  linarith

theorem Near.neg_400_lt {x : Binary64} (finite : x.isFinite = true) (some : 0 < x.significand)
    {q : ℚ} (near : x.Near q) {k : Int} (below : q < (10 : ℚ) ^ k) : -400 < k := by
  by_contra far
  have decay := ten_zpow_le_two_zpow (show k ≤ 0 by omega)
  have less : (2 : ℚ) ^ (3 * k) ≤ 2 ^ (-1075 : Int) :=
    zpow_le_zpow_right₀ (by norm_num) (by omega)
  have := (near.bounds finite some).1
  linarith

/-! ### Numerals -/

/-- The number that a numeral stands for. -/
def Numeral.value (numeral : Numeral) : ℚ :=
  natOfDigits (numeral.whole ++ numeral.fraction) *
    10 ^ (numeral.exponent - numeral.fraction.length)

theorem ofNumeral_of_holds {x : Binary64} (finite : x.isFinite = true) (some : 0 < x.significand)
    {numeral : Numeral} (all : AllDigits (numeral.whole ++ numeral.fraction))
    (holds : x.interval.Holds numeral.value) (negative : Bool) :
    ofNumeral negative numeral = ofMagnitude negative x.magnitude := by
  have near := holds.near some
  have positive : (0 : ℚ) < numeral.value :=
    lt_of_lt_of_le (by positivity) (near.bounds finite some).1
  unfold Numeral.value at holds near positive
  unfold ofNumeral
  rw [← natOfDigits_dropWhile] at holds near positive
  have allLeft : AllDigits ((numeral.whole ++ numeral.fraction).dropWhile (· == '0')) :=
    fun c member => all c ((List.dropWhile_suffix _).subset member)
  have first := List.head?_dropWhile_not (· == '0') (numeral.whole ++ numeral.fraction)
  generalize (numeral.whole ++ numeral.fraction).dropWhile (· == '0') = digits at *
  generalize numeral.exponent - numeral.fraction.length = exponent at *
  cases digits with
  | nil => simp [natOfDigits] at positive
  | cons c rest =>
      have ten : (0 : ℚ) < 10 ^ exponent := by positivity
      have nonzero : c ≠ '0' := by simpa using first
      have low : (10 : ℚ) ^ (exponent + rest.length) ≤
          natOfDigits (c :: rest) * 10 ^ exponent := by
        rw [zpow_add₀ (by norm_num), zpow_natCast, mul_comm]
        gcongr
        exact_mod_cast le_natOfDigits (allLeft c (List.mem_cons_self ..)) nonzero rest
      have high : natOfDigits (c :: rest) * 10 ^ exponent <
          (10 : ℚ) ^ (exponent + (c :: rest).length) := by
        rw [zpow_add₀ (by norm_num), zpow_natCast, mul_comm]
        gcongr
        exact_mod_cast natOfDigits_lt allLeft
      have notLarge := near.lt_400 finite some low
      have notSmall := near.neg_400_lt finite some high
      rw [if_neg (by simp), if_neg (by rw [List.length_cons]; omega), if_neg (by omega),
        natOfLongRun_eq]
      split
      · rename_i up
        obtain ⟨k, rfl⟩ := Int.eq_ofNat_of_zero_le up
        refine ofQuotient_of_holds finite some Nat.one_pos ?_ negative
        rw [zpow_natCast] at holds
        simpa only [Int.toNat_natCast, Nat.cast_one, div_one, Nat.pow_eq, Nat.cast_mul,
          Nat.cast_pow, Nat.cast_ofNat] using holds
      · rename_i down
        obtain ⟨k, same⟩ := Int.eq_ofNat_of_zero_le (show 0 ≤ -exponent by omega)
        obtain rfl : exponent = -(k : Int) := by omega
        refine ofQuotient_of_holds finite some (Nat.pow_pos (by decide)) ?_ negative
        rw [zpow_neg, zpow_natCast] at holds
        simpa only [neg_neg, Int.toNat_natCast, div_eq_mul_inv, Nat.pow_eq, Nat.cast_pow,
          Nat.cast_ofNat] using holds

def IsNumeralChar (c : Char) : Prop :=
  c.isDigit = true ∨ c ∈ ['.', 'e', '+', '-']

/-- The characters are those of an unsigned numeral, with a point or an exponent, for this
number. -/
structure Denotes (cs : List Char) (q : ℚ) : Prop where
  reads : ∃ numeral, readNumeral? cs = some numeral ∧
    AllDigits (numeral.whole ++ numeral.fraction) ∧ numeral.value = q
  first : ∃ c rest, cs = c :: rest ∧ c.isDigit = true
  plain : ∀ c ∈ cs, IsNumeralChar c
  mark : ∃ c ∈ cs, c.isDigit = false

theorem cutWhile_digits {digits rest : List Char} (all : AllDigits digits)
    (stops : ∀ c others, rest = c :: others → c.isDigit = false) :
    cutWhile Char.isDigit (digits ++ rest) = (digits, rest) := by
  unfold cutWhile
  rw [List.takeWhile_append_of_pos all, List.dropWhile_append_of_pos all]
  cases rest with
  | nil => simp
  | cons c others =>
      have stop := stops c others rfl
      rw [List.takeWhile_cons_of_neg (by simp [stop]), List.dropWhile_cons_of_neg (by simp [stop]),
        List.append_nil]

theorem readNumeral?_point {whole fraction rest : List Char} (nonempty : whole ≠ [])
    (all : AllDigits whole) (all' : AllDigits fraction)
    (stops : ∀ c others, rest = c :: others → c.isDigit = false) :
    readNumeral? (whole ++ '.' :: (fraction ++ rest)) =
      (readExponent? rest).map fun exponent => ⟨whole, fraction, exponent⟩ := by
  have cut : cutWhile Char.isDigit (whole ++ '.' :: (fraction ++ rest)) =
      (whole, '.' :: (fraction ++ rest)) := by
    apply cutWhile_digits all
    intro c others same
    cases same
    rfl
  unfold readNumeral?
  simp only [cut, cutWhile_digits all' stops]
  rw [if_neg (by simp [nonempty])]

theorem readNumeral?_whole {whole rest : List Char} (nonempty : whole ≠ [])
    (all : AllDigits whole) :
    readNumeral? (whole ++ 'e' :: rest) =
      (readExponent? ('e' :: rest)).map fun exponent => ⟨whole, [], exponent⟩ := by
  have cut : cutWhile Char.isDigit (whole ++ 'e' :: rest) = (whole, 'e' :: rest) := by
    apply cutWhile_digits all
    intro c others same
    cases same
    rfl
  unfold readNumeral?
  simp only [cut]
  rw [if_neg (by simp [nonempty])]
  rfl

theorem readExponent?_signed {exponent : Int} (small : exponent.natAbs < exponentCap)
    (zeros : Nat) :
    readExponent? ('e' :: (if exponent < 0 then '-' else '+') ::
      (List.replicate zeros '0' ++ Nat.toDigits 10 exponent.natAbs)) = some exponent := by
  have whole : natOfDigits (List.replicate zeros '0' ++ Nat.toDigits 10 exponent.natAbs) =
      exponent.natAbs := by
    rw [natOfDigits_zeros_append, natOfDigits_toDigits]
  have read : readCapped? exponentCap
      (List.replicate zeros '0' ++ Nat.toDigits 10 exponent.natAbs) = some exponent.natAbs := by
    rw [readCapped?_eq (by simp [Nat.toDigits_ne_nil])
      ((allDigits_zeros zeros).append (allDigits_toDigits _)) (by rwa [whole]), whole]
  unfold readExponent?
  by_cases negative : exponent < 0
  · rw [if_pos negative]
    simp only [splitSign, read, true_or, if_true]
    change some (-(exponent.natAbs : Int)) = some exponent
    rw [Int.ofNat_natAbs_of_nonpos (Int.le_of_lt negative), neg_neg]
  · rw [if_neg negative]
    simp only [splitSign, read, true_or, if_true]
    change some (exponent.natAbs : Int) = some exponent
    rw [Int.natAbs_of_nonneg (Int.not_lt.mp negative)]

/-! ### The digits of a decimal -/

theorem Decimal.exists_zeros (d : Decimal) :
    ∃ count, Nat.toDigits 10 d.digits = d.digitChars ++ List.replicate count '0' := by
  obtain ⟨count, zeros⟩ := exists_zeros_append (Nat.toDigits 10 d.digits).reverse
  refine ⟨count, ?_⟩
  have reversed := congrArg List.reverse zeros
  rwa [List.reverse_reverse, List.reverse_append, List.reverse_replicate] at reversed

theorem Decimal.allDigits_digitChars (d : Decimal) : AllDigits d.digitChars := by
  obtain ⟨count, zeros⟩ := d.exists_zeros
  have all := allDigits_toDigits d.digits
  rw [zeros] at all
  exact all.left

theorem Decimal.value_eq (d : Decimal) :
    d.value = natOfDigits d.digitChars * 10 ^ (d.leading + 1 - d.digitChars.length) := by
  obtain ⟨count, zeros⟩ := d.exists_zeros
  have whole := natOfDigits_toDigits d.digits
  have length := congrArg List.length zeros
  rw [zeros, natOfDigits_append_zeros] at whole
  rw [List.length_append, List.length_replicate] at length
  have whole' : (natOfDigits d.digitChars : ℚ) * 10 ^ count = d.digits := by exact_mod_cast whole
  unfold Decimal.value Decimal.leading
  rw [length, ← whole', show d.exponent + ((d.digitChars.length + count : Nat) : Int) - 1 + 1 -
    d.digitChars.length = count + d.exponent by omega, zpow_add₀ (by norm_num), zpow_natCast]
  ring

theorem Decimal.digitChars_ne_nil {d : Decimal} (positive : 0 < d.digits) : d.digitChars ≠ [] := by
  obtain ⟨count, zeros⟩ := d.exists_zeros
  have whole := natOfDigits_toDigits d.digits
  rw [zeros, natOfDigits_append_zeros] at whole
  intro empty
  rw [empty] at whole
  change 0 * _ = _ at whole
  omega

theorem Decimal.leading_spec {d : Decimal} (positive : 0 < d.digits) :
    (10 : ℚ) ^ d.leading ≤ d.value ∧ d.value < 10 ^ (d.leading + 1) := by
  have digits := pow_le_of_length_toDigits positive
  have ten : (10 : ℚ) ≠ 0 := by norm_num
  have length : 0 < (Nat.toDigits 10 d.digits).length := by
    rw [List.length_pos_iff]
    exact Nat.toDigits_ne_nil
  have above : d.digits < 10 ^ (Nat.toDigits 10 d.digits).length :=
    (Nat.length_toDigits_le_iff (by decide) length).mp (Nat.le_refl _)
  unfold Decimal.value Decimal.leading
  generalize (Nat.toDigits 10 d.digits).length = places at digits above length
  constructor
  · rw [show d.exponent + (places : Int) - 1 = ((places - 1 : Nat) : Int) + d.exponent by omega,
      zpow_add₀ ten, zpow_natCast]
    gcongr
    exact_mod_cast digits
  · rw [show d.exponent + (places : Int) - 1 + 1 = (places : Int) + d.exponent by omega,
      zpow_add₀ ten, zpow_natCast]
    gcongr
    exact_mod_cast above

/-! ### The two forms of text -/

theorem denotes_point {whole fraction rest : List Char} {exponent : Int} (nonempty : whole ≠ [])
    (all : AllDigits whole) (all' : AllDigits fraction)
    (read : readExponent? rest = some exponent)
    (stops : ∀ c others, rest = c :: others → c.isDigit = false)
    (plain : ∀ c ∈ rest, IsNumeralChar c) :
    Denotes (whole ++ '.' :: (fraction ++ rest))
      (natOfDigits (whole ++ fraction) * 10 ^ (exponent - fraction.length)) where
  reads := by
    refine ⟨⟨whole, fraction, exponent⟩, ?_, all.append all', rfl⟩
    rw [readNumeral?_point nonempty all all' stops, read, Option.map_some]
  first := by
    obtain ⟨c, others, rfl⟩ := List.exists_cons_of_ne_nil nonempty
    exact ⟨c, _, rfl, all c (List.mem_cons_self ..)⟩
  plain c member := by
    rcases List.mem_append.mp member with inWhole | behind
    · exact .inl (all c inWhole)
    · rcases List.mem_cons.mp behind with rfl | behind
      · exact .inr (by decide)
      · rcases List.mem_append.mp behind with inFraction | inTail
        · exact .inl (all' c inFraction)
        · exact plain c inTail
  mark := ⟨'.', by simp, by decide⟩

theorem denotes_whole {whole rest : List Char} {exponent : Int} (nonempty : whole ≠ [])
    (all : AllDigits whole) (read : readExponent? ('e' :: rest) = some exponent)
    (plain : ∀ c ∈ rest, IsNumeralChar c) :
    Denotes (whole ++ 'e' :: rest) (natOfDigits whole * 10 ^ exponent) where
  reads := by
    refine ⟨⟨whole, [], exponent⟩, ?_, by rwa [List.append_nil], ?_⟩
    · rw [readNumeral?_whole nonempty all, read, Option.map_some]
    · simp [Numeral.value]
  first := by
    obtain ⟨c, others, rfl⟩ := List.exists_cons_of_ne_nil nonempty
    exact ⟨c, _, rfl, all c (List.mem_cons_self ..)⟩
  plain c member := by
    rcases List.mem_append.mp member with inWhole | behind
    · exact .inl (all c inWhole)
    · rcases List.mem_cons.mp behind with rfl | behind
      · exact .inr (by decide)
      · exact plain c behind
  mark := ⟨'e', by simp, by decide⟩

theorem denotes_decimal {whole fraction : List Char} (nonempty : whole ≠ [])
    (all : AllDigits whole) (all' : AllDigits fraction) :
    Denotes (whole ++ '.' :: fraction)
      (natOfDigits (whole ++ fraction) * 10 ^ (-(fraction.length : Int))) := by
  have read : readExponent? [] = some 0 := rfl
  have denotes := denotes_point nonempty all all' read nofun nofun
  rwa [List.append_nil, zero_sub] at denotes

variable {digits : List Char}

theorem denotes_positionalChars (nonempty : digits ≠ []) (all : AllDigits digits) (leading : Int) :
    Denotes (positionalChars digits leading)
      (natOfDigits digits * 10 ^ (leading + 1 - digits.length)) := by
  unfold positionalChars
  split
  · -- The number is below one: all digits stand behind the point, and zeros before them.
    have denotes := denotes_decimal (List.cons_ne_nil '0' []) (allDigits_zeros 1)
      ((allDigits_zeros (-leading - 1).toNat).append all)
    have number := (natOfDigits_zeros_append 1 _).trans
      (natOfDigits_zeros_append (-leading - 1).toNat digits)
    rw [List.replicate_one] at number
    rw [number, List.length_append, List.length_replicate, show
      -(((-leading - 1).toNat + digits.length : Nat) : Int) = leading + 1 - digits.length by omega]
      at denotes
    exact denotes
  · rename_i atLeast
    obtain ⟨n, rfl⟩ := Int.eq_ofNat_of_zero_le (Int.not_lt.mp atLeast)
    rw [Int.toNat_natCast]
    dsimp only
    rcases Nat.lt_or_ge (n + 1) digits.length with inside | beyond
    · -- The point stands among the digits.
      have cut := List.take_append_drop (n + 1) digits
      have front : digits.take (n + 1) ≠ [] := by
        rw [Ne, List.take_eq_nil_iff]
        simp [nonempty]
      have behind : (digits.drop (n + 1)).isEmpty = false := by
        rw [List.isEmpty_eq_false_iff, Ne, List.drop_eq_nil_iff]
        omega
      rw [← cut] at all
      have denotes := denotes_decimal front all.left all.right
      rw [cut, List.length_drop, show -((digits.length - (n + 1) : Nat) : Int) =
        (n : Int) + 1 - digits.length by omega] at denotes
      rw [Nat.sub_eq_zero_of_le (Nat.le_of_lt inside), List.replicate_zero, List.append_nil,
        behind, if_neg Bool.false_ne_true]
      exact denotes
    · -- All digits stand before the point, and zeros behind them.
      rw [List.take_of_length_le beyond, List.drop_of_length_le beyond, List.isEmpty_nil,
        if_pos rfl]
      have front : digits ++ List.replicate (n + 1 - digits.length) '0' ≠ [] := by
        simp [nonempty]
      have denotes := denotes_decimal front (all.append (allDigits_zeros _)) (allDigits_zeros 1)
      rw [natOfDigits_append_zeros, natOfDigits_append_zeros, List.length_replicate] at denotes
      have power : (10 : ℚ) ^ ((n : Int) + 1 - digits.length) =
          10 ^ (n + 1 - digits.length) * 10 ^ 1 * 10 ^ (-(1 : Nat) : Int) := by
        rw [← pow_add, ← zpow_natCast, ← zpow_add₀ (by norm_num)]
        congr 1
        omega
      rw [power, ← mul_assoc, ← mul_assoc]
      push_cast at denotes ⊢
      exact denotes

theorem denotes_scientificChars (nonempty : digits ≠ []) (all : AllDigits digits) {leading : Int}
    (small : leading.natAbs < exponentCap) :
    Denotes (scientificChars digits leading)
      (natOfDigits digits * 10 ^ (leading + 1 - digits.length)) := by
  have read := readExponent?_signed small (2 - (Nat.toDigits 10 leading.natAbs).length)
  have plain : ∀ c ∈ (if leading < 0 then '-' else '+') ::
      (List.replicate (2 - (Nat.toDigits 10 leading.natAbs).length) '0' ++
        Nat.toDigits 10 leading.natAbs), IsNumeralChar c := by
    intro c member
    rcases List.mem_cons.mp member with rfl | inside
    · right
      split <;> decide
    · exact .inl (((allDigits_zeros _).append (allDigits_toDigits _)) c inside)
  unfold scientificChars
  dsimp only
  generalize (if leading < 0 then '-' else '+') ::
    (List.replicate (2 - (Nat.toDigits 10 leading.natAbs).length) '0' ++
      Nat.toDigits 10 leading.natAbs) = rest at read plain ⊢
  cases digits with
  | nil => exact absurd rfl nonempty
  | cons c tail =>
      cases tail with
      | nil =>
          have denotes := denotes_whole nonempty all read plain
          rwa [show leading + 1 - ([c].length : Int) = leading by simp]
      | cons second others =>
          change AllDigits ([c] ++ second :: others) at all
          have denotes := denotes_point (List.cons_ne_nil c []) all.left all.right read
            (fun _ _ same => (List.cons.inj same).1 ▸ rfl)
            (List.forall_mem_cons.mpr ⟨.inr (by decide), plain⟩)
          rwa [show leading + 1 - ((c :: second :: others).length : Int) =
            leading - ((second :: others).length : Int) by simp]

/-! ### Writing and reading -/

theorem significand_pos {x : Binary64} (nonzero : x.isZero = false) : 0 < x.significand := by
  have magnitude : x.magnitude ≠ 0 := by simpa [isZero] using nonzero
  unfold significand
  split
  · omega
  · have : 0 < fieldWeight := by decide
    omega

/-- The shortest decimal of a number other than zero has digits, and the place of the first one is
not far out. -/
theorem shortest_leading {x : Binary64} (finite : x.isFinite = true) (nonzero : x.isZero = false) :
    0 < x.shortest.digits ∧ x.shortest.leading < 400 ∧ -400 < x.shortest.leading + 1 := by
  have positive := significand_pos nonzero
  have near := (shortest_holds positive).near positive
  have digits : 0 < x.shortest.digits := by
    have := lt_of_lt_of_le (by positivity) (near.bounds finite positive).1
    rcases Nat.eq_zero_or_pos x.shortest.digits with zero | digits
    · simp [Decimal.value, zero] at this
    · exact digits
  obtain ⟨low, high⟩ := Decimal.leading_spec digits
  exact ⟨digits, near.lt_400 finite positive low, near.neg_400_lt finite positive high⟩

theorem denotes_magnitudeChars {x : Binary64} (finite : x.isFinite = true)
    (nonzero : x.isZero = false) : Denotes x.magnitudeChars x.shortest.value := by
  obtain ⟨digits, notLarge, notSmall⟩ := shortest_leading finite nonzero
  rw [Decimal.value_eq]
  unfold magnitudeChars
  rw [nonzero, if_neg Bool.false_ne_true]
  dsimp only
  split
  · exact denotes_positionalChars (Decimal.digitChars_ne_nil digits)
      (Decimal.allDigits_digitChars _) _
  · refine denotes_scientificChars (Decimal.digitChars_ne_nil digits)
      (Decimal.allDigits_digitChars _) ?_
    unfold exponentCap
    omega

theorem ofNumeral_of_value_zero {numeral : Numeral}
    (all : AllDigits (numeral.whole ++ numeral.fraction)) (zeros : numeral.value = 0)
    (negative : Bool) : ofNumeral negative numeral = zero negative := by
  have none : natOfDigits (numeral.whole ++ numeral.fraction) = 0 := by
    unfold Numeral.value at zeros
    have ten : (10 : ℚ) ^ (numeral.exponent - numeral.fraction.length) ≠ 0 := by positivity
    exact_mod_cast (mul_eq_zero.mp zeros).resolve_right ten
  rw [← natOfDigits_dropWhile] at none
  have allLeft : AllDigits ((numeral.whole ++ numeral.fraction).dropWhile (· == '0')) :=
    fun c member => all c ((List.dropWhile_suffix _).subset member)
  have first := List.head?_dropWhile_not (· == '0') (numeral.whole ++ numeral.fraction)
  unfold ofNumeral
  generalize (numeral.whole ++ numeral.fraction).dropWhile (· == '0') = digits at *
  cases digits with
  | nil => rfl
  | cons c rest =>
      have low := le_natOfDigits (allLeft c (List.mem_cons_self ..)) (by simpa using first) rest
      rw [none] at low
      exact absurd low (Nat.not_le_of_gt (Nat.pow_pos (by decide)))

theorem exists_denotes {x : Binary64} (finite : x.isFinite = true) :
    ∃ q, Denotes x.magnitudeChars q ∧ ∀ numeral : Numeral,
      AllDigits (numeral.whole ++ numeral.fraction) → numeral.value = q →
        ∀ negative, ofNumeral negative numeral = ofMagnitude negative x.magnitude := by
  cases none : x.isZero with
  | true =>
      refine ⟨0, ?_, ?_⟩
      · have denotes := denotes_decimal (List.cons_ne_nil '0' []) (allDigits_zeros 1)
          (allDigits_zeros 1)
        have number : natOfDigits (['0'] ++ List.replicate 1 '0') = 0 := natOfDigits_zeros 2
        rw [number, Nat.cast_zero, zero_mul] at denotes
        unfold magnitudeChars
        rw [none, if_pos rfl]
        exact denotes
      · intro numeral all value negative
        rw [ofNumeral_of_value_zero all value, eq_of_beq none]
        rfl
  | false =>
      have positive := significand_pos none
      refine ⟨_, denotes_magnitudeChars finite none, ?_⟩
      intro numeral all value negative
      exact ofNumeral_of_holds finite positive all (value ▸ shortest_holds positive) negative

theorem toLower_of_isDigit {c : Char} (digit : c.isDigit = true) : c.toLower = c := by
  unfold Char.isDigit at digit
  simp only [Bool.and_eq_true, decide_eq_true_eq] at digit
  have upper : c.val ≤ 57 := digit.2
  unfold Char.toLower
  rw [dif_neg]
  rintro ⟨low, _⟩
  exact absurd (UInt32.le_trans low upper) (by decide)

theorem Denotes.splitSign_eq {cs : List Char} {q : ℚ} (denotes : Denotes cs q) (negative : Bool) :
    splitSign (if negative then '-' :: cs else cs) = (negative, cs) := by
  obtain ⟨c, rest, rfl, digit⟩ := denotes.first
  cases negative with
  | true => rfl
  | false => exact splitSign_of_digit digit rest

theorem Denotes.ofChars?_eq {cs : List Char} {q : ℚ} (denotes : Denotes cs q) {negative : Bool}
    {x : Binary64} (same : ∀ numeral : Numeral,
      AllDigits (numeral.whole ++ numeral.fraction) → numeral.value = q →
        ofNumeral negative numeral = x) :
    ofChars? (if negative then '-' :: cs else cs) = some x := by
  obtain ⟨numeral, read, all, value⟩ := denotes.reads
  have signed := denotes.splitSign_eq negative
  obtain ⟨c, rest, rfl, digit⟩ := denotes.first
  -- A word does not begin with a digit.
  have noWord (w : Char) (word : List Char) (letter : w.isDigit = false) :
      spells (w :: word) (c :: rest) = false := by
    rw [← Bool.not_eq_true, spells_iff, List.map_cons, toLower_of_isDigit digit]
    intro spelled
    rw [(List.cons.inj spelled).1, letter] at digit
    cases digit
  unfold ofChars?
  rw [signed]
  dsimp only
  rw [noWord _ _ (by decide), noWord _ _ (by decide), noWord _ _ (by decide), read,
    Option.map_some, same numeral all value]
  rfl

theorem ofMagnitude_self (x : Binary64) : ofMagnitude x.isNegative x.magnitude = x := by
  have word := x.bits.toNat_lt
  obtain ⟨bits⟩ := x
  unfold ofMagnitude isNegative magnitude signWeight
  congr 1
  apply UInt64.toNat_inj.mp
  rw [UInt64.toNat_ofNat']
  simp only [decide_eq_true_eq] at word ⊢
  split <;> omega

theorem chars_of_isFinite {x : Binary64} (finite : x.isFinite = true) :
    x.chars = if x.isNegative then '-' :: x.magnitudeChars else x.magnitudeChars := by
  have number : x.isNaN = false := by
    unfold isFinite at finite
    unfold isNaN
    rw [decide_eq_true_eq] at finite
    rw [decide_eq_false_iff_not]
    omega
  unfold chars
  rw [number, finite]
  rfl

theorem ofChars?_chars {x : Binary64} (finite : x.isFinite = true) :
    ofChars? x.chars = some x := by
  obtain ⟨q, denotes, same⟩ := exists_denotes finite
  rw [chars_of_isFinite finite, denotes.ofChars?_eq (x := x)]
  intro numeral all value
  rw [same numeral all value, ofMagnitude_self]

/-! ### What is never read -/

theorem isNaN_ofMagnitude (negative : Bool) {m : Nat} (number : m ≤ infiniteMagnitude) :
    (ofMagnitude negative m).isNaN = false := by
  unfold isNaN
  rw [magnitude_ofMagnitude negative (Nat.lt_of_le_of_lt number (by decide)),
    decide_eq_false_iff_not]
  omega

theorem isNaN_ofQuotient (negative : Bool) (n d : Nat) :
    (ofQuotient negative n d).isNaN = false := by
  unfold ofQuotient
  split
  · exact isNaN_ofMagnitude negative (Nat.zero_le _)
  · exact isNaN_ofMagnitude negative (Nat.min_le_left _ _)

theorem isNaN_ofNumeral (negative : Bool) (numeral : Numeral) :
    (ofNumeral negative numeral).isNaN = false := by
  unfold ofNumeral
  dsimp only
  split
  · exact isNaN_ofMagnitude negative (Nat.zero_le _)
  · split
    · exact isNaN_ofMagnitude negative (Nat.le_refl _)
    · split
      · exact isNaN_ofMagnitude negative (Nat.zero_le _)
      · split <;> exact isNaN_ofQuotient _ _ _

end LessonScript.Binary64
