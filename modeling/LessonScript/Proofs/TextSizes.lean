import LessonScript.Proofs.FloatText
import LessonScript.Value.Arithmetic
import LessonScript.Value.Text

/-!
How long the text of a value is.

A number has a text of a few digits: the shortest decimal of a floating point number has its
leading digit below the four hundredth place and its last digit not far behind
(`Binary64.length_chars_le`).  So the text of a value is short unless it is a text itself
(`Value.utf8ByteSize_text_le`).
-/

namespace LessonScript

theorem utf8ByteSize_ofList_le (cs : List Char) :
    (String.ofList cs).utf8ByteSize ≤ 4 * cs.length := by
  induction cs with
  | nil => exact Nat.le_refl 0
  | cons c cs ih =>
      have first := c.utf8Size_le_four
      rw [String.ofList_cons, String.utf8ByteSize_append, String.utf8ByteSize_singleton,
        List.length_cons]
      omega

theorem utf8ByteSize_intText_le (word : Int64) : (Text.intText word.toInt).utf8ByteSize ≤ 80 := by
  have low := word.le_toInt
  have high := word.toInt_lt
  have digits : (Nat.toDigits 10 word.toInt.natAbs).length ≤ 19 :=
    (Nat.length_toDigits_le_iff (by decide) (by decide)).mpr (by omega)
  have size := utf8ByteSize_ofList_le (Nat.toDigits 10 word.toInt.natAbs)
  have sign : "-".utf8ByteSize = 1 := rfl
  unfold Text.intText Text.natText
  split
  · rw [String.utf8ByteSize_append]
    omega
  · omega

namespace Binary64

theorem le_leadingBelowOne (n d steps power : Nat) :
    -((power + steps : Nat) : Int) ≤ leadingBelowOne n d steps power := by
  induction steps generalizing n power with
  | zero => exact Int.le_refl _
  | succ steps ih =>
      unfold leadingBelowOne
      split
      · omega
      · have behind := ih (10 * n) (power + 1)
        omega

theorem le_leadingExponent (x : Binary64) : -400 ≤ x.leadingExponent := by
  have below := le_leadingBelowOne (inUnits x.significand 1 (-x.exponent)).1
    (inUnits x.significand 1 (-x.exponent)).2 400 0
  unfold leadingExponent
  generalize inUnits x.significand 1 (-x.exponent) = quotient at below ⊢
  obtain ⟨n, d⟩ := quotient
  dsimp only at below ⊢
  split
  · omega
  · exact below

/-- The last digit of the shortest decimal stands at most 16 places behind the leading one. -/
theorem le_shortest_exponent (x : Binary64) : -416 ≤ x.shortest.exponent := by
  have leading := x.le_leadingExponent
  obtain ⟨k, digits, few, _, same⟩ | ⟨_, same⟩ := x.shortest_cases
  · rw [same]
    dsimp only
    omega
  · rw [same]
    exact (by decide : (-416 : Int) ≤ 0)

theorem length_digitChars_le (d : Decimal) :
    d.digitChars.length ≤ (d.leading - d.exponent + 1).toNat := by
  obtain ⟨count, zeros⟩ := d.exists_zeros
  have length := congrArg List.length zeros
  rw [List.length_append, List.length_replicate] at length
  unfold Decimal.leading
  omega

theorem length_positionalChars_le (digits : List Char) {leading : Int} (low : -4 ≤ leading)
    (high : leading < 16) : (positionalChars digits leading).length ≤ digits.length + 40 := by
  unfold positionalChars
  split
  · simp only [List.length_cons, List.length_append, List.length_replicate]
    omega
  · dsimp only
    split
    · simp only [List.length_cons, List.length_append, List.length_replicate, List.length_take,
        List.length_nil]
      omega
    · simp only [List.length_cons, List.length_append, List.length_replicate, List.length_take,
        List.length_drop]
      omega

theorem length_scientificChars_le (digits : List Char) {leading : Int}
    (small : leading.natAbs < 1000) :
    (scientificChars digits leading).length ≤ digits.length + 8 := by
  have exponent : (Nat.toDigits 10 leading.natAbs).length ≤ 3 :=
    (Nat.length_toDigits_le_iff (by decide) (by decide)).mpr small
  unfold scientificChars
  dsimp only
  split
  · simp only [List.length_cons, List.length_append, List.length_replicate]
    omega
  · simp only [List.length_cons, List.length_append, List.length_replicate]
    omega

theorem length_chars_le (x : Binary64) : x.chars.length ≤ 1000 := by
  have magnitude : x.isFinite = true → x.magnitudeChars.length ≤ 900 := by
    intro finite
    unfold magnitudeChars
    cases nonzero : x.isZero with
    | true =>
        rw [if_pos rfl]
        exact (by decide : 3 ≤ 900)
    | false =>
        obtain ⟨_, notLarge, notSmall⟩ := shortest_leading finite nonzero
        have digits := length_digitChars_le x.shortest
        have last := x.le_shortest_exponent
        rw [if_neg Bool.false_ne_true]
        dsimp only
        split
        · rename_i plain
          have length := length_positionalChars_le x.shortest.digitChars plain.1 plain.2
          omega
        · have small : x.shortest.leading.natAbs < 1000 := by omega
          have length := length_scientificChars_le x.shortest.digitChars small
          omega
  have body : (if x.isFinite then x.magnitudeChars else ['i', 'n', 'f']).length ≤ 900 := by
    split
    · exact magnitude ‹_›
    · exact (by decide : 3 ≤ 900)
  unfold chars
  split
  · exact (by decide : 3 ≤ 1000)
  · dsimp only
    split
    · rw [List.length_cons]
      omega
    · omega

end Binary64

namespace Value

/-- The bytes of the text that a value is or iterates over. -/
def textBytes : Value → Nat
  | str s => s.utf8ByteSize
  | iter (.spelling text _) => text.utf8ByteSize
  | _ => 0

theorem utf8ByteSize_text_le (v : Value) : v.text.utf8ByteSize ≤ max maxTextBytes v.textBytes := by
  have bound : 4000 ≤ maxTextBytes := by decide
  have short {n : Nat} (few : n ≤ 4000) : n ≤ max maxTextBytes v.textBytes :=
    Nat.le_trans few (Nat.le_trans bound (Nat.le_max_left _ _))
  cases v with
  | nothing => exact short (by decide)
  | bool b => cases b <;> exact short (by decide)
  | int n => exact short (Nat.le_trans (utf8ByteSize_intText_le n) (by decide))
  | float x =>
      have length := x.length_chars_le
      exact short (Nat.le_trans (utf8ByteSize_ofList_le _) (by omega))
  | str s => exact Nat.le_max_right _ _
  | builtin f => cases f <;> exact short (by decide)
  | range p =>
      have start := utf8ByteSize_intText_le p.start
      have stop := utf8ByteSize_intText_le p.stop
      have step := utf8ByteSize_intText_le p.step
      have front : "range(".utf8ByteSize = 6 := rfl
      have comma : ", ".utf8ByteSize = 2 := rfl
      have back : ")".utf8ByteSize = 1 := rfl
      apply short
      unfold text
      dsimp only
      split
      · simp only [String.utf8ByteSize_append]
        omega
      · simp only [String.utf8ByteSize_append]
        omega
  | iter i =>
      cases i with
      | counting => exact short (by decide : "<range_iterator>".utf8ByteSize ≤ 4000)
      | spelling => exact short (by decide : "<str_iterator>".utf8ByteSize ≤ 4000)

end Value

end LessonScript
