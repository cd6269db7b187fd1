import LessonScript.Text.CharClass

/-!
Decimal numerals for integers.

A numeral is a non-empty run of ASCII digits, with leading zeros allowed, behind at most
one sign.  Reading a numeral into a bounded type fails when the number does not fit.
`checkedInt64_eq_some_iff` is the one fact about the range of 64-bit integers that the
rest of the library uses.
-/

namespace LessonScript

/-- The 64-bit integer with this value, when there is one. -/
def checkedInt64 (n : Int) : Option Int64 :=
  if Int64.minValue.toInt ≤ n ∧ n ≤ Int64.maxValue.toInt then some (Int64.ofInt n) else none

theorem checkedInt64_eq_some_iff {n : Int} {word : Int64} :
    checkedInt64 n = some word ↔ word.toInt = n := by
  unfold checkedInt64
  constructor
  · intro hChecked
    split at hChecked
    · rename_i hRange
      rw [← Option.some.inj hChecked]
      exact Int64.toInt_ofInt_of_le (by simpa using hRange.1) (by
        have := hRange.2
        simp only [Int64.toInt_maxValue] at this
        omega)
    · simp at hChecked
  · rintro rfl
    rw [if_pos ⟨word.minValue_le_toInt, word.toInt_le⟩, Int64.ofInt_toInt]

theorem checkedInt64_toInt (word : Int64) : checkedInt64 word.toInt = some word :=
  checkedInt64_eq_some_iff.2 rfl

namespace Text

def digitValue (c : Char) : Nat :=
  c.toNat - '0'.toNat

def natOfDigits (digits : List Char) : Nat :=
  digits.foldl (fun n c => 10 * n + digitValue c) 0

/-- The number that a run of decimal digits denotes, found from its two halves, which are
halved in turn as often as `halvings` says. -/
def natOfHalves : Nat → List Char → Nat
  | 0, digits => natOfDigits digits
  | halvings + 1, digits =>
    let low := digits.length / 2
    let high := digits.length - low
    natOfHalves halvings (digits.take high) * Nat.pow 10 low +
      natOfHalves halvings (digits.drop high)

/-- The number that a run of decimal digits denotes, found by halving the run until its parts
are short.  A long run takes far fewer steps this way than digit by digit. -/
def natOfLongRun (digits : List Char) : Nat :=
  natOfHalves (digits.length / 64).log2 digits

/-- Reads digits for as long as the number so far is below the cap and passes over the
others. -/
def cappedNat (cap : Nat) (digits : List Char) : Nat :=
  digits.foldl (fun n c => if n < cap then 10 * n + digitValue c else n) 0

def readCapped? (cap : Nat) (cs : List Char) : Option Nat :=
  if !cs.isEmpty && cs.all Char.isDigit then some (cappedNat cap cs) else none

def splitSign : List Char → Bool × List Char
  | '-' :: rest => (true, rest)
  | '+' :: rest => (false, rest)
  | rest => (false, rest)

/-- Reads an unsigned numeral below the bound, with an optional plus sign. -/
def readNatBelow? (bound : Nat) (cs : List Char) : Option Nat :=
  let digits := match cs with
    | '+' :: rest => rest
    | rest => rest
  (readCapped? bound digits).filter (· < bound)

def int64Cap : Nat :=
  0x8000000000000001

/-- Reads a numeral for a 64-bit integer, with an optional sign. -/
def readInt64? (cs : List Char) : Option Int64 :=
  let (negative, digits) := splitSign cs
  (readCapped? int64Cap digits).bind fun n => checkedInt64 (if negative then -(n : Int) else n)

def natText (n : Nat) : String :=
  String.ofList (Nat.toDigits 10 n)

def intText (n : Int) : String :=
  if n < 0 then "-" ++ natText n.natAbs else natText n.natAbs

theorem foldl_digits (digits : List Char) (n : Nat) :
    digits.foldl (fun n c => 10 * n + digitValue c) n =
      n * Nat.pow 10 digits.length + natOfDigits digits := by
  induction digits generalizing n with
  | nil => exact (Nat.mul_one n).symm
  | cons c rest ih =>
    have hShift : n * Nat.pow 10 (rest.length + 1) = 10 * n * Nat.pow 10 rest.length := by
      have hPower : Nat.pow 10 (rest.length + 1) = Nat.pow 10 rest.length * 10 := rfl
      rw [hPower, Nat.mul_comm 10 n, Nat.mul_assoc, Nat.mul_comm 10]
    have hFirst : natOfDigits (c :: rest) =
        (10 * 0 + digitValue c) * Nat.pow 10 rest.length + natOfDigits rest := ih _
    rw [List.foldl_cons, ih, hFirst, List.length_cons, hShift, Nat.add_mul, Nat.zero_add,
      Nat.add_assoc]

theorem natOfDigits_append (high low : List Char) :
    natOfDigits (high ++ low) = natOfDigits high * Nat.pow 10 low.length + natOfDigits low := by
  unfold natOfDigits
  rw [List.foldl_append]
  exact foldl_digits low _

theorem natOfHalves_eq (halvings : Nat) (digits : List Char) :
    natOfHalves halvings digits = natOfDigits digits := by
  induction halvings generalizing digits with
  | zero => rfl
  | succ halvings ih =>
    have hLow : (digits.drop (digits.length - digits.length / 2)).length =
        digits.length / 2 := by
      rw [List.length_drop]; omega
    unfold natOfHalves
    dsimp only
    rw [ih, ih]
    conv => rhs; rw [← List.take_append_drop (digits.length - digits.length / 2) digits]
    rw [natOfDigits_append, hLow]

theorem natOfLongRun_eq (digits : List Char) : natOfLongRun digits = natOfDigits digits :=
  natOfHalves_eq _ digits

theorem foldl_capped_of_le {cap n : Nat} (hReached : cap ≤ n) (digits : List Char) :
    digits.foldl (fun n c => if n < cap then 10 * n + digitValue c else n) n = n := by
  induction digits with
  | nil => rfl
  | cons c rest ih => rw [List.foldl_cons, if_neg (Nat.not_lt.2 hReached), ih]

theorem le_foldl_digits (digits : List Char) (n : Nat) :
    n ≤ digits.foldl (fun n c => 10 * n + digitValue c) n := by
  induction digits generalizing n with
  | nil => exact Nat.le_refl n
  | cons c rest ih => exact Nat.le_trans (show n ≤ 10 * n + digitValue c by omega) (ih _)

/-- Below the cap the capped number is the number itself, and it reaches the cap exactly when
the number does. -/
theorem cappedNat_eq_or_le (cap : Nat) (digits : List Char) :
    cappedNat cap digits = natOfDigits digits ∨
      cap ≤ cappedNat cap digits ∧ cap ≤ natOfDigits digits := by
  suffices hAll : ∀ n : Nat,
      digits.foldl (fun n c => if n < cap then 10 * n + digitValue c else n) n =
          digits.foldl (fun n c => 10 * n + digitValue c) n ∨
        cap ≤ digits.foldl (fun n c => if n < cap then 10 * n + digitValue c else n) n ∧
          cap ≤ digits.foldl (fun n c => 10 * n + digitValue c) n from hAll 0
  induction digits with
  | nil => exact fun _ => .inl rfl
  | cons c rest ih =>
    intro n
    by_cases hBelow : n < cap
    · rw [List.foldl_cons, List.foldl_cons, if_pos hBelow]
      exact ih _
    · have hReached := Nat.not_lt.1 hBelow
      rw [foldl_capped_of_le hReached]
      exact .inr ⟨hReached, Nat.le_trans hReached (le_foldl_digits _ n)⟩

end Text

end LessonScript
