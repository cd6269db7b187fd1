import LessonScript.Text.AlphabeticRanges
import LessonScript.Text.HiddenRanges
import LessonScript.Text.NumericRanges

/-!
Character classes of scripts and listings.

The classes are the Unicode ones: a name may start with any alphabetic character and
continue with any alphabetic or numeric character, and surrounding blank space is the
property White_Space.  The layout characters inside a script line are a smaller set and
are fixed where lines are read, not here.
-/

namespace LessonScript.Text

def inRanges (ranges : List (Nat × Nat)) (n : Nat) : Bool :=
  ranges.any fun range => range.1 ≤ n && n ≤ range.2

def isAlphabetic (c : Char) : Bool :=
  c.isAlpha || (128 ≤ c.toNat && inRanges alphabeticRanges c.toNat)

/-- The Unicode general categories of numbers: decimal digits, letter numbers and others. -/
def isNumeric (c : Char) : Bool :=
  c.isDigit || (128 ≤ c.toNat && inRanges numericRanges c.toNat)

def isAlphanumeric (c : Char) : Bool :=
  isAlphabetic c || isNumeric c

/-- The character shows as itself: it is no control or format character, no blank but the
space, and combines with no other. -/
def isVisible (c : Char) : Bool :=
  (0x20 ≤ c.toNat && c.toNat < 0x7F) || (128 ≤ c.toNat && !inRanges hiddenRanges c.toNat)

def isNameStart (c : Char) : Bool :=
  isAlphabetic c || c == '_'

def isNamePart (c : Char) : Bool :=
  isAlphanumeric c || c == '_'

def isSpace (c : Char) : Bool :=
  let n := c.toNat
  (9 ≤ n && n ≤ 13) || n == 0x20 || n == 0x85 || n == 0xA0 || n == 0x1680 ||
    (0x2000 ≤ n && n ≤ 0x200A) || n == 0x2028 || n == 0x2029 || n == 0x202F ||
    n == 0x205F || n == 0x3000

/-- The longest front part whose characters all satisfy the predicate, and what follows. -/
def cutWhile (p : Char → Bool) (cs : List Char) : List Char × List Char :=
  (cs.takeWhile p, cs.dropWhile p)

theorem cutWhile_append (p : Char → Bool) (cs : List Char) :
    (cutWhile p cs).1 ++ (cutWhile p cs).2 = cs :=
  List.takeWhile_append_dropWhile

theorem isNamePart_of_isNameStart {c : Char} (hStart : isNameStart c = true) :
    isNamePart c = true := by
  simp only [isNameStart, isNamePart, isAlphanumeric, Bool.or_eq_true] at hStart ⊢
  exact hStart.imp (fun hAlphabetic => .inl hAlphabetic) id

end LessonScript.Text
