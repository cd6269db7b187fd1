import LessonScript.Binary64.Rounding
import LessonScript.Text.Numeral

/-!
Reading floating point numbers from decimal text.

A numeral is an optional sign and then either one of the words `inf`, `infinity` and `nan`
in any mixture of cases, or digits with an optional point and an optional exponent, with a
digit on at least one side of the point.  The digits of the exponent count until it reaches
65536 and no further; under that exponent the number is the correctly rounded one.
-/

namespace LessonScript.Binary64

structure Numeral where
  whole : List Char
  fraction : List Char
  exponent : Int
  deriving DecidableEq

/-- The number that a numeral denotes.  A numeral whose first digit other than zero stands far
outside the range of the type is settled by the place of that digit alone. -/
def ofNumeral (negative : Bool) (numeral : Numeral) : Binary64 :=
  let digits := (numeral.whole ++ numeral.fraction).dropWhile (· == '0')
  let exponent := numeral.exponent - numeral.fraction.length
  let leading := exponent + digits.length
  if digits.isEmpty then zero negative
  else if 400 < leading then infinity negative
  else if leading < -400 then zero negative
  else
    let n := Text.natOfLongRun digits
    if 0 ≤ exponent then ofQuotient negative (n * Nat.pow 10 exponent.toNat) 1
    else ofQuotient negative n (Nat.pow 10 (-exponent).toNat)

/-- Once an exponent has reached this size, its further digits do not count. -/
def exponentCap : Nat :=
  0x10000

def readExponent? : List Char → Option Int
  | [] => some 0
  | c :: rest =>
    if c = 'e' ∨ c = 'E' then
      let (negative, digits) := Text.splitSign rest
      (Text.readCapped? exponentCap digits).map fun n => if negative then -(n : Int) else n
    else none

def readNumeral? (cs : List Char) : Option Numeral :=
  let (whole, rest) := Text.cutWhile Char.isDigit cs
  let (fraction, rest) := match rest with
    | '.' :: rest => Text.cutWhile Char.isDigit rest
    | rest => ([], rest)
  if whole.isEmpty && fraction.isEmpty then none
  else (readExponent? rest).map fun exponent => ⟨whole, fraction, exponent⟩

/-- The characters spell the word, which is in lower case, in any mixture of cases. -/
def spells : (word cs : List Char) → Bool
  | [], [] => true
  | w :: word, c :: cs => c.toLower == w && spells word cs
  | _, _ => false

def ofChars? (cs : List Char) : Option Binary64 :=
  let (negative, body) := Text.splitSign cs
  if spells ['i', 'n', 'f'] body || spells ['i', 'n', 'f', 'i', 'n', 'i', 't', 'y'] body then
    some (infinity negative)
  else if spells ['n', 'a', 'n'] body then some (nan negative)
  else (readNumeral? body).map (ofNumeral negative)

theorem spells_iff (word cs : List Char) : spells word cs = true ↔ cs.map Char.toLower = word := by
  induction word generalizing cs with
  | nil => cases cs <;> simp [spells]
  | cons w word ih => cases cs <;> simp [spells, ih]

end LessonScript.Binary64
