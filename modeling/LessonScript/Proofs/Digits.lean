import LessonScript.Text.Numeral
import Mathlib.Algebra.Ring.Nat
import Mathlib.Data.List.TakeWhile

/-!
The numbers that runs of digits denote.

Zeros in front of a run of digits change nothing, and zeros behind it are factors of ten.  A run
without zeros in front fixes its number up to a factor of ten by its length.  The digits of a
natural number are read back as that number, by every reader of numerals that it fits.
-/

namespace LessonScript.Text

def AllDigits (cs : List Char) : Prop :=
  ∀ c ∈ cs, c.isDigit = true

theorem AllDigits.append {first second : List Char} (digits : AllDigits first)
    (digits' : AllDigits second) : AllDigits (first ++ second) := by
  intro c member
  exact (List.mem_append.mp member).elim (digits c) (digits' c)

theorem AllDigits.left {first second : List Char} (digits : AllDigits (first ++ second)) :
    AllDigits first :=
  fun c member => digits c (List.mem_append_left _ member)

theorem AllDigits.right {first second : List Char} (digits : AllDigits (first ++ second)) :
    AllDigits second :=
  fun c member => digits c (List.mem_append_right _ member)

theorem allDigits_zeros (count : Nat) : AllDigits (List.replicate count '0') := by
  intro c member
  rw [List.eq_of_mem_replicate member]
  rfl

theorem allDigits_toDigits (n : Nat) : AllDigits (Nat.toDigits 10 n) :=
  fun _ member => Nat.isDigit_of_mem_toDigits (by decide) (by decide) member

theorem digitValue_lt {c : Char} (digit : c.isDigit = true) : digitValue c < 10 := by
  unfold Char.isDigit at digit
  simp only [Bool.and_eq_true, decide_eq_true_eq] at digit
  have upper : c.toNat ≤ 57 := digit.2
  change c.toNat - 48 < 10
  omega

theorem digitValue_pos {c : Char} (digit : c.isDigit = true) (nonzero : c ≠ '0') :
    0 < digitValue c := by
  unfold Char.isDigit at digit
  simp only [Bool.and_eq_true, decide_eq_true_eq] at digit
  have lower : 48 ≤ c.toNat := digit.1
  have other : c.toNat ≠ 48 := fun same => nonzero (Char.toNat_inj.mp same)
  change 0 < c.toNat - 48
  omega

theorem natOfDigits_zeros (count : Nat) : natOfDigits (List.replicate count '0') = 0 := by
  induction count with
  | zero => rfl
  | succ count ih =>
      rw [List.replicate_succ, ← List.singleton_append, natOfDigits_append, ih]
      exact Nat.zero_mul _

theorem natOfDigits_zeros_append (count : Nat) (digits : List Char) :
    natOfDigits (List.replicate count '0' ++ digits) = natOfDigits digits := by
  rw [natOfDigits_append, natOfDigits_zeros, Nat.zero_mul, Nat.zero_add]

theorem natOfDigits_append_zeros (digits : List Char) (count : Nat) :
    natOfDigits (digits ++ List.replicate count '0') = natOfDigits digits * 10 ^ count := by
  rw [natOfDigits_append, natOfDigits_zeros, List.length_replicate]
  rfl

theorem exists_zeros_append (cs : List Char) :
    ∃ count, cs = List.replicate count '0' ++ cs.dropWhile (· == '0') := by
  refine ⟨(cs.takeWhile (· == '0')).length, ?_⟩
  have zeros : cs.takeWhile (· == '0') =
      List.replicate (cs.takeWhile (· == '0')).length '0' := by
    rw [List.eq_replicate_iff]
    refine ⟨rfl, ?_⟩
    intro c member
    exact eq_of_beq (List.mem_takeWhile_imp (p := (· == '0')) member)
  rw [← zeros, List.takeWhile_append_dropWhile]

theorem natOfDigits_dropWhile (cs : List Char) :
    natOfDigits (cs.dropWhile (· == '0')) = natOfDigits cs := by
  obtain ⟨count, zeros⟩ := exists_zeros_append cs
  conv => rhs; rw [zeros]
  rw [natOfDigits_zeros_append]

theorem natOfDigits_lt {digits : List Char} (all : AllDigits digits) :
    natOfDigits digits < 10 ^ digits.length := by
  induction digits with
  | nil => exact Nat.one_pos
  | cons c rest ih =>
      have first := digitValue_lt (all c (List.mem_cons_self ..))
      have others := ih fun c member => all c (List.mem_cons_of_mem _ member)
      rw [← List.singleton_append, natOfDigits_append, List.length_append, List.length_singleton,
        Nat.add_comm 1, Nat.pow_succ']
      have single : natOfDigits [c] = digitValue c := by simp [natOfDigits]
      have bound := Nat.mul_le_mul_right (10 ^ rest.length) (Nat.le_of_lt_succ first)
      change natOfDigits [c] * 10 ^ rest.length + _ < _
      rw [single]
      omega

theorem le_natOfDigits {c : Char} (digit : c.isDigit = true) (nonzero : c ≠ '0')
    (rest : List Char) : 10 ^ rest.length ≤ natOfDigits (c :: rest) := by
  have single : natOfDigits [c] = digitValue c := by simp [natOfDigits]
  rw [← List.singleton_append, natOfDigits_append, single]
  exact Nat.le_trans (Nat.le_mul_of_pos_left _ (digitValue_pos digit nonzero))
    (Nat.le_add_right _ _)

theorem natOfDigits_toDigits (n : Nat) : natOfDigits (Nat.toDigits 10 n) = n := by
  conv => rhs; rw [← Nat.ofDigitChars_ten_toDigits (n := n), Nat.ofDigitChars_eq_foldl]
  rfl

theorem readCapped?_eq {cap : Nat} {digits : List Char} (some' : digits ≠ [])
    (all : AllDigits digits) (below : natOfDigits digits < cap) :
    readCapped? cap digits = some (natOfDigits digits) := by
  have whole : cappedNat cap digits = natOfDigits digits := by
    rcases cappedNat_eq_or_le cap digits with same | ⟨_, reached⟩
    · exact same
    · omega
  unfold readCapped?
  rw [if_pos ?_, whole]
  simpa [some', AllDigits] using all

theorem readCapped?_toDigits {cap n : Nat} (below : n < cap) :
    readCapped? cap (Nat.toDigits 10 n) = some n := by
  have whole := natOfDigits_toDigits n
  rw [readCapped?_eq Nat.toDigits_ne_nil (allDigits_toDigits n) (by rwa [whole]), whole]

theorem readNatBelow?_natText {n bound : Nat} (below : n < bound) :
    readNatBelow? bound (natText n).toList = some n := by
  have read := readCapped?_toDigits below
  unfold readNatBelow? natText
  rw [String.toList_ofList]
  split
  · rename_i rest signed
    have first := allDigits_toDigits n '+' (by rw [signed]; exact List.mem_cons_self ..)
    cases first
  · dsimp only
    rw [read]
    simp [Option.filter, below]

theorem splitSign_of_digit {c : Char} (digit : c.isDigit = true) (rest : List Char) :
    splitSign (c :: rest) = (false, c :: rest) := by
  unfold splitSign
  split
  · rename_i signed
    cases signed
    cases digit
  · rename_i signed
    cases signed
    cases digit
  · rfl

theorem splitSign_toDigits (n : Nat) :
    splitSign (Nat.toDigits 10 n) = (false, Nat.toDigits 10 n) := by
  obtain ⟨c, rest, same⟩ := List.exists_cons_of_ne_nil (Nat.toDigits_ne_nil (b := 10) (n := n))
  have digit := allDigits_toDigits n c (by rw [same]; exact List.mem_cons_self ..)
  rw [same, splitSign_of_digit digit]

theorem toList_intText (n : Int) :
    (intText n).toList = (if n < 0 then ['-'] else []) ++ Nat.toDigits 10 n.natAbs := by
  unfold intText natText
  split
  · rw [String.toList_append, String.toList_ofList, String.toList_ofList]
  · rw [String.toList_ofList, List.nil_append]

theorem readInt64?_intText (word : Int64) :
    readInt64? (intText word.toInt).toList = some word := by
  have low := word.minValue_le_toInt
  have high := word.toInt_le
  simp only [Int64.toInt_minValue, Int64.toInt_maxValue] at low high
  have below : word.toInt.natAbs < int64Cap := by
    unfold int64Cap
    omega
  have read := readCapped?_toDigits below
  have signed : splitSign (intText word.toInt).toList =
      (decide (word.toInt < 0), Nat.toDigits 10 word.toInt.natAbs) := by
    rw [toList_intText]
    by_cases negative : word.toInt < 0
    · rw [if_pos negative, decide_eq_true negative]
      rfl
    · rw [if_neg negative, decide_eq_false negative, List.nil_append, splitSign_toDigits]
  unfold readInt64?
  rw [signed]
  dsimp only
  rw [read]
  apply checkedInt64_eq_some_iff.mpr
  simp only [decide_eq_true_eq]
  split <;> omega

end LessonScript.Text
