/-!
The limits of a run.

A run may execute so many instructions and hold so many values at once.  Without a step
limit it may execute any number of them.
-/

namespace LessonScript

structure Limits where
  /-- The number of instructions a run may execute, if there is a limit. -/
  maxSteps : Option Nat
  /-- The number of values the stack may hold. -/
  maxStackDepth : Nat
  /-- Whether each instruction is to be logged; it changes nothing a run can show. -/
  trace : Bool
  deriving DecidableEq

namespace Limits

def standard : Limits :=
  ⟨some 100000, 1024, false⟩

def classroom : Limits :=
  ⟨some 10000, 256, false⟩

def unbounded : Limits :=
  { standard with maxSteps := none }

end Limits

end LessonScript
