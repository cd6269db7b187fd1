import LessonScript.Script.Operator
import LessonScript.Value.Basic

/-!
The syntax tree of scripts.

Every node that can be to blame at run time carries the line of the token to which its
instructions belong.  Parentheses leave no trace.  A chain of `or` or of `and` is nested to
the right, which reads the same operands in the same order with the same outcome.  An
`elif` is an `else` whose block is a single conditional.
-/

namespace LessonScript

inductive Expr where
  | literal (line : Nat) (value : Literal)
  | name (line : Nat) (id : String)
  | negate (line : Nat) (operand : Expr)
  | complement (line : Nat) (operand : Expr)
  | arith (line : Nat) (op : ArithOp) (left right : Expr)
  | compare (line : Nat) (op : CompareOp) (left right : Expr)
  | both (line : Nat) (left right : Expr)
  | either (line : Nat) (left right : Expr)
  | call (line : Nat) (callee : Expr) (args : List Expr)

/-- A statement; a block is a sequence that ends in the empty statement. -/
inductive Stmt where
  | skip
  | seq (first second : Stmt)
  | evaluate (line : Nat) (e : Expr)
  | assign (line : Nat) (id : String) (e : Expr)
  | augment (line : Nat) (id : String) (op : ArithOp) (opLine : Nat) (e : Expr)
  | breakLoop (line : Nat)
  | continueLoop (line : Nat)
  | ifThen (line : Nat) (test : Expr) (body : Stmt)
  | ifElse (line : Nat) (test : Expr) (body : Stmt) (elseLine : Nat) (orelse : Stmt)
  | whileLoop (line : Nat) (test : Expr) (body : Stmt)
  | forLoop (line : Nat) (id : String) (iterable : Expr) (body : Stmt)

structure Script where
  body : Stmt
  lastLine : Nat

end LessonScript
