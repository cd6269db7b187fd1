import LessonScript.Binary64.Basic
import LessonScript.Binary64.Rounding
import LessonScript.Value.Builtin
import LessonScript.Value.Iteration

/-!
The values of scripts.

`Value` has identity as its equality: two floating point constants are the same value only
when they have the same bits.  The comparison that scripts see is a different relation and
is defined in `LessonScript.Value.Order`.

A `Literal` is a value that can be written down in a script or a listing.
-/

namespace LessonScript

inductive Value where
  | nothing
  | bool (b : Bool)
  | int (n : Int64)
  | float (x : Binary64)
  | str (s : String)
  | builtin (f : Builtin)
  | range (p : Progression)
  | iter (position : Iteration)
  deriving DecidableEq

/-- A value that can be written as a constant. -/
inductive Literal where
  | nothing
  | bool (b : Bool)
  | int (n : Int64)
  | float (x : Binary64)
  | str (s : String)
  deriving DecidableEq

namespace Literal

def value : Literal → Value
  | nothing => .nothing
  | bool b => .bool b
  | int n => .int n
  | float x => .float x
  | str s => .str s

end Literal

namespace Value

def literal? : Value → Option Literal
  | nothing => some .nothing
  | bool b => some (.bool b)
  | int n => some (.int n)
  | float x => some (.float x)
  | str s => some (.str s)
  | builtin _ | range _ | iter _ => none

def kind : Value → Kind
  | nothing => .nothing
  | bool _ => .bool
  | int _ => .int
  | float _ => .float
  | str _ => .str
  | builtin _ => .builtin
  | range _ => .range
  | iter _ => .iterator

/-- Whether a condition holds for the value: zeros, the empty text, the empty progression,
`False` and `None` fail it. -/
def isTruthy : Value → Bool
  | nothing => false
  | bool b => b
  | int n => n != 0
  | float x => !x.isZero
  | str s => !s.isEmpty
  | range p => p.length != 0
  | builtin _ | iter _ => true

def bool? : Value → Option Bool
  | bool b => some b
  | _ => none

def int? : Value → Option Int64
  | int n => some n
  | _ => none

def float? : Value → Option Binary64
  | float x => some x
  | _ => none

def str? : Value → Option String
  | str s => some s
  | _ => none

def builtin? : Value → Option Builtin
  | builtin f => some f
  | _ => none

/-- The number of either kind as a floating point number; a large integer is rounded. -/
def number? : Value → Option Binary64
  | int n => some (.ofInt n.toInt)
  | float x => some x
  | _ => none

theorem literal?_eq_some_iff {v : Value} {l : Literal} : v.literal? = some l ↔ v = l.value := by
  cases v <;> cases l <;> simp [literal?, Literal.value, eq_comm]

end Value

namespace Iteration

/-- The next item and the position after it; nothing at the end.  A progression whose next
integer would leave the 64-bit range goes to its bound, where it ends. -/
def advance? : Iteration → Option (Value × Iteration)
  | counting next stop step =>
    if (if 0 < step then next < stop else stop < next) then
      some (.int next,
        counting ((checkedInt64 (next.toInt + step.toInt)).getD stop) stop step)
    else none
  | spelling text next =>
    if h : next = text.endPos then none
    else some (.str (String.singleton (next.get h)), spelling text (next.next h))

theorem advance?_spelling {text before after : String} {c : Char} {next : text.Pos}
    (hSplits : next.Splits before (String.singleton c ++ after)) :
    ∃ p : text.Pos, p.Splits (before ++ String.singleton c) after ∧
      (spelling text next).advance? =
        some (.str (String.singleton c), spelling text p) := by
  have hInside := hSplits.ne_endPos_of_singleton
  have hSame := congrArg String.toList
    ((String.Pos.splits_next_right next hInside).eq_right hSplits)
  have hFirst : next.get hInside = c := by simp at hSame; exact hSame.1
  refine ⟨next.next hInside, hSplits.next, ?_⟩
  rw [advance?, dif_neg hInside, hFirst]

theorem advance?_endPos (text : String) : (spelling text text.endPos).advance? = none := by
  rw [advance?, dif_pos rfl]

end Iteration

end LessonScript
