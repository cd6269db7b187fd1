import LessonScript.Binary64.Rounding
import LessonScript.Text.Numeral

/-!
The decimal text of floating point numbers.

A finite number is written with the fewest significant digits that no other number shares:
for each digit count in turn, the two neighbours of the number on that decimal grid are
tested against the interval of reals that round to the number; of two hits the nearer one
wins, and an exact tie goes away from zero.  The text is positional from `0.0001` up to
below `10 ^ 16`, and scientific with a signed exponent of at least two digits elsewhere.
-/

namespace LessonScript.Binary64

structure Decimal where
  digits : Nat
  exponent : Int
  deriving DecidableEq

/-- A positive number and the bounds of the reals that round to it, in quarters of its last
place. -/
structure Interval where
  low : Nat
  value : Nat
  high : Nat
  closed : Bool
  unit : Int

def interval (x : Binary64) : Interval :=
  let m := x.significand
  let narrowBelow := m = fieldWeight ∧ x.exponent ≠ -1074
  { low := if narrowBelow then 4 * m - 1 else 4 * m - 2
    value := 4 * m
    high := 4 * m + 2
    closed := m % 2 = 0
    unit := x.exponent - 2 }

def gridFactors (unit grid : Int) : Nat × Nat :=
  (Nat.pow 2 unit.toNat * Nat.pow 10 (-grid).toNat,
    Nat.pow 2 (-unit).toNat * Nat.pow 10 grid.toNat)

/-- The multiple of `10 ^ grid` nearest to the number among its two neighbours that lie in
the interval. -/
def Interval.nearest? (i : Interval) (grid : Int) : Option Nat :=
  let (a, b) := gridFactors i.unit grid
  let below := i.value * a / b
  let rest := i.value * a % b
  let inside (d : Nat) : Bool :=
    if i.closed then i.low * a ≤ d * b && d * b ≤ i.high * a
    else i.low * a < d * b && d * b < i.high * a
  match inside below, inside (below + 1) with
  | true, true => if 2 * rest < b then some below else some (below + 1)
  | true, false => some below
  | false, true => some (below + 1)
  | false, false => none

/-- The exponent of the leading digit of `n / d`, for a quotient below one: the first power
of ten that reaches one, counted by `steps`. -/
def leadingBelowOne (n d : Nat) : Nat → Nat → Int
  | 0, power => -(power : Int)
  | steps + 1, power =>
    if d ≤ n then -(power : Int) else leadingBelowOne (10 * n) d steps (power + 1)

def leadingExponent (x : Binary64) : Int :=
  let (n, d) := inUnits x.significand 1 (-x.exponent)
  if d ≤ n then ((Nat.toDigits 10 (n / d)).length : Int) - 1
  else leadingBelowOne n d 400 0

def shortest (x : Binary64) : Decimal :=
  let i := x.interval
  let top := x.leadingExponent
  let hit := (List.range 17).findSome? fun (k : Nat) =>
    (i.nearest? (top - k)).map fun digits => Decimal.mk digits (top - k)
  hit.getD ⟨x.significand, 0⟩

def Decimal.digitChars (d : Decimal) : List Char :=
  ((Nat.toDigits 10 d.digits).reverse.dropWhile (· == '0')).reverse

def Decimal.leading (d : Decimal) : Int :=
  d.exponent + ((Nat.toDigits 10 d.digits).length : Int) - 1

def positionalChars (digits : List Char) (leading : Int) : List Char :=
  if leading < 0 then
    '0' :: '.' :: (List.replicate (-leading - 1).toNat '0' ++ digits)
  else
    let whole := digits.take (leading.toNat + 1)
    let fraction := digits.drop (leading.toNat + 1)
    whole ++ List.replicate (leading.toNat + 1 - digits.length) '0' ++
      '.' :: (if fraction.isEmpty then ['0'] else fraction)

def scientificChars (digits : List Char) (leading : Int) : List Char :=
  let mantissa := match digits with
    | first :: second :: rest => first :: '.' :: second :: rest
    | digits => digits
  let exponent := Nat.toDigits 10 leading.natAbs
  mantissa ++ 'e' :: (if leading < 0 then '-' else '+') ::
    (List.replicate (2 - exponent.length) '0' ++ exponent)

def magnitudeChars (x : Binary64) : List Char :=
  if x.isZero then ['0', '.', '0']
  else
    let d := x.shortest
    if -4 ≤ d.leading ∧ d.leading < 16 then positionalChars d.digitChars d.leading
    else scientificChars d.digitChars d.leading

def chars (x : Binary64) : List Char :=
  if x.isNaN then ['n', 'a', 'n']
  else
    let body := if x.isFinite then x.magnitudeChars else ['i', 'n', 'f']
    if x.isNegative then '-' :: body else body

def text (x : Binary64) : String :=
  String.ofList x.chars

end LessonScript.Binary64
