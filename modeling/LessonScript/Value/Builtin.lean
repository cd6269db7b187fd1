import LessonScript.Value.Kind

/-!
The callables that a host can offer to scripts.

The list is closed: a script reaches nothing but these, and only by name.  What a call does
is defined with the machine; here are only the names and the argument counts.
-/

namespace LessonScript

/-- A callable that scripts reach by name. -/
inductive Builtin where
  | print
  | input
  | abs
  | min
  | max
  | len
  | str
  | int
  | float
  | round
  | range
  deriving DecidableEq

namespace Builtin

def all : List Builtin :=
  [print, input, abs, min, max, len, str, int, float, round, range]

def name : Builtin → String
  | print => "print"
  | input => "input"
  | abs => "abs"
  | min => "min"
  | max => "max"
  | len => "len"
  | str => "str"
  | int => "int"
  | float => "float"
  | round => "round"
  | range => "range"

def ofName? (name : String) : Option Builtin :=
  all.find? fun builtin => builtin.name == name

def arity : Builtin → Arity
  | print => .atLeast 0
  | input => .between 0 1
  | abs | len | str | int | float => .exactly 1
  | min | max => .atLeast 1
  | round => .between 1 2
  | range => .between 1 3

theorem ofName?_eq_some_iff {text : String} {builtin : Builtin} :
    ofName? text = some builtin ↔ text = builtin.name := by
  constructor
  · intro hFound
    have hName := List.find?_some hFound
    exact (beq_iff_eq.1 hName).symm
  · rintro rfl
    cases builtin <;> decide

end Builtin

end LessonScript
