import LessonScript.Text.Numeral

/-!
Progressions of integers and positions in an iteration.

A progression is what `range` yields; its step is never zero.  A position in an iteration
stands before the next integer of a progression, or before the next character of a text.
-/

namespace LessonScript

structure Progression where
  start : Int64
  stop : Int64
  step : Int64
  step_ne_zero : step ≠ 0
  deriving DecidableEq

namespace Progression

def ofBounds? (start stop step : Int64) : Option Progression :=
  if h : step = 0 then none else some ⟨start, stop, step, h⟩

def length (p : Progression) : Nat :=
  let start := p.start.toInt
  let stop := p.stop.toInt
  let step := p.step.toInt
  if 0 < step ∧ start < stop then ((stop - start - 1) / step + 1).toNat
  else if step < 0 ∧ stop < start then ((start - stop - 1) / (-step) + 1).toNat
  else 0

end Progression

inductive Iteration where
  /-- Before the integer `next` of a progression. -/
  | counting (next stop step : Int64)
  /-- Inside a text, before the character at the position `next` or at the end. -/
  | spelling (text : String) (next : text.Pos)
  deriving DecidableEq

namespace Iteration

def ofText (text : String) : Iteration :=
  spelling text text.startPos

def ofProgression (p : Progression) : Iteration :=
  counting p.start p.stop p.step

end Iteration

end LessonScript
