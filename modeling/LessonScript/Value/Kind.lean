/-!
The kinds of values and the argument counts of callables, with the names that a student
sees in messages.
-/

namespace LessonScript

inductive Kind where
  | nothing
  | bool
  | int
  | float
  | str
  | builtin
  | range
  | iterator
  deriving DecidableEq

namespace Kind

def name : Kind → String
  | nothing => "NoneType"
  | bool => "bool"
  | int => "int"
  | float => "float"
  | str => "str"
  | builtin => "builtin_function"
  | range => "range"
  | iterator => "iterator"

def all : List Kind :=
  [nothing, bool, int, float, str, builtin, range, iterator]

def ofName? (name : String) : Option Kind :=
  all.find? fun kind => kind.name == name

def isNumeric : Kind → Bool
  | int | float => true
  | _ => false

end Kind

inductive Arity where
  | exactly (count : Nat)
  | between (least most : Nat)
  | atLeast (least : Nat)
  deriving DecidableEq

namespace Arity

def accepts : Arity → Nat → Bool
  | exactly wanted, count => count == wanted
  | between least most, count => least ≤ count && count ≤ most
  | atLeast least, count => least ≤ count

def text : Arity → String
  | exactly wanted => s!"{wanted}"
  | between least most => s!"{least} to {most}"
  | atLeast least => s!"at least {least}"

end Arity

end LessonScript
