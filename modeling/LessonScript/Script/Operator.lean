/-!
The operators of scripts that take two operands and always evaluate both.
-/

namespace LessonScript

inductive ArithOp where
  | add
  | subtract
  | multiply
  | trueDivide
  | floorDivide
  | modulo
  deriving DecidableEq

inductive CompareOp where
  | eq
  | ne
  | lt
  | gt
  | le
  | ge
  deriving DecidableEq

namespace CompareOp

def all : List CompareOp :=
  [eq, ne, lt, gt, le, ge]

def symbol : CompareOp → String
  | eq => "=="
  | ne => "!="
  | lt => "<"
  | gt => ">"
  | le => "<="
  | ge => ">="

def ofSymbol? (text : String) : Option CompareOp :=
  all.find? fun op => op.symbol == text

def holds : CompareOp → Ordering → Bool
  | eq, order => order.isEq
  | ne, order => order.isNe
  | lt, order => order.isLT
  | gt, order => order.isGT
  | le, order => order.isLE
  | ge, order => order.isGE

end CompareOp

end LessonScript
