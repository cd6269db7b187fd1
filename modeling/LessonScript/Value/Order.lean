import LessonScript.Value.Basic

/-!
Equality and order of values as scripts see them.

Numbers of both kinds compare with each other, texts compare by their code points, and a
pair of any other kinds has no order.  Equality is defined for every pair; values of
different kinds are unequal unless both are numbers.
-/

namespace LessonScript.Value

def compare? : Value → Value → Option Ordering
  | int a, int b => some (compare a b)
  | float x, float y => x.compare? y
  | int a, float y => (Binary64.ofInt a.toInt).compare? y
  | float x, int b => x.compare? (Binary64.ofInt b.toInt)
  | str s, str t => some (compare s t)
  | _, _ => none

def equals : Value → Value → Bool
  | nothing, nothing => true
  | bool a, bool b => a == b
  | int a, int b => a == b
  | float x, float y => x.compare? y == some .eq
  | int a, float y => (Binary64.ofInt a.toInt).compare? y == some .eq
  | float x, int b => (Binary64.ofInt b.toInt).compare? x == some .eq
  | str s, str t => s == t
  | builtin f, builtin g => f == g
  | range p, range q => p == q
  | iter p, iter q => p == q
  | _, _ => false

end LessonScript.Value
