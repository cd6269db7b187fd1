import LessonScript.Script.Operator
import LessonScript.Text.CharClass
import LessonScript.Text.Numeral

/-!
The instructions of the stack machine.

Operands are numbers: an index into the constants or the names of a program, a count of
arguments, or the index of an instruction to jump to.  A listing may hold mnemonics that
the machine does not know; they stay in the program as they are written and fail only when
they are reached.
-/

namespace LessonScript

inductive Opcode where
  /-- Push a constant. -/
  | loadConst (index : Nat)
  /-- Push the value of a name. -/
  | loadName (index : Nat)
  /-- The same under another mnemonic. -/
  | loadFast (index : Nat)
  /-- Pop a value and bind it to a name. -/
  | storeName (index : Nat)
  /-- The same under another mnemonic. -/
  | storeFast (index : Nat)
  /-- Replace two values by the result of an arithmetic operator. -/
  | arith (op : ArithOp)
  /-- Replace a value by its negative. -/
  | negate
  /-- Replace a value by whether it is falsy. -/
  | complement
  /-- Replace two values by whether a comparison holds. -/
  | compare (op : CompareOp)
  /-- Replace a callee and its arguments by the result of the call. -/
  | call (count : Nat)
  /-- Drop a value. -/
  | popTop
  /-- End the run with a value. -/
  | returnValue
  /-- Go on at another instruction. -/
  | jump (target : Nat)
  /-- Drop a value and jump if its truth is the given one. -/
  | popJumpIf (truth : Bool) (target : Nat)
  /-- Jump with the value if its truth is the given one, and drop it otherwise. -/
  | jumpIfOrPop (truth : Bool) (target : Nat)
  /-- Replace an iterable by an iteration over it. -/
  | getIter
  /-- Push the next item of an iteration, or drop the iteration and jump. -/
  | forIter (target : Nat)
  /-- A mnemonic that the machine does not know. -/
  | unknown (mnemonic : String) (arg : Option String)
  deriving DecidableEq

namespace Opcode

def arithName : ArithOp → String
  | .add => "BINARY_ADD"
  | .subtract => "BINARY_SUBTRACT"
  | .multiply => "BINARY_MULTIPLY"
  | .trueDivide => "BINARY_TRUE_DIVIDE"
  | .floorDivide => "BINARY_FLOOR_DIVIDE"
  | .modulo => "BINARY_MODULO"

def name : Opcode → String
  | loadConst _ => "LOAD_CONST"
  | loadName _ => "LOAD_NAME"
  | loadFast _ => "LOAD_FAST"
  | storeName _ => "STORE_NAME"
  | storeFast _ => "STORE_FAST"
  | arith op => arithName op
  | negate => "UNARY_NEGATIVE"
  | complement => "UNARY_NOT"
  | compare _ => "COMPARE_OP"
  | call _ => "CALL_FUNCTION"
  | popTop => "POP_TOP"
  | returnValue => "RETURN_VALUE"
  | jump _ => "JUMP_ABSOLUTE"
  | popJumpIf false _ => "POP_JUMP_IF_FALSE"
  | popJumpIf true _ => "POP_JUMP_IF_TRUE"
  | jumpIfOrPop false _ => "JUMP_IF_FALSE_OR_POP"
  | jumpIfOrPop true _ => "JUMP_IF_TRUE_OR_POP"
  | getIter => "GET_ITER"
  | forIter _ => "FOR_ITER"
  | unknown .. => "UNKNOWN"

def mnemonic : Opcode → String
  | unknown mnemonic _ => mnemonic
  | op => op.name

def operand? : Opcode → Option Nat
  | loadConst n | loadName n | loadFast n | storeName n | storeFast n | call n | jump n
  | popJumpIf _ n | jumpIfOrPop _ n | forIter n => some n
  | _ => none

def target? : Opcode → Option Nat
  | jump n | popJumpIf _ n | jumpIfOrPop _ n | forIter n => some n
  | _ => none

def withTarget? (target : Nat) : Opcode → Option Opcode
  | jump _ => some (jump target)
  | popJumpIf truth _ => some (popJumpIf truth target)
  | jumpIfOrPop truth _ => some (jumpIfOrPop truth target)
  | forIter _ => some (forIter target)
  | _ => none

def usesConstant : Opcode → Bool
  | loadConst _ => true
  | _ => false

def usesName : Opcode → Bool
  | loadName _ | loadFast _ | storeName _ | storeFast _ => true
  | _ => false

/-- A character between double quotes, with everything that would not show escaped. -/
def visibleChar (c : Char) : String :=
  if c = '"' then "\\\""
  else if c = '\\' then "\\\\"
  else if c = '\n' then "\\n"
  else if c = '\r' then "\\r"
  else if c = '\t' then "\\t"
  else if c = '\x00' then "\\0"
  else if Text.isVisible c then String.ofList [c]
  else "\\u\x7b" ++ String.ofList (Nat.toDigits 16 c.toNat) ++ "\x7d"

def visibleText (s : String) : String :=
  "\"" ++ String.join (s.toList.map visibleChar) ++ "\""

def wording : Opcode → String
  | loadConst n => "LoadConst(" ++ Text.natText n ++ ")"
  | loadName n => "LoadName(" ++ Text.natText n ++ ")"
  | loadFast n => "LoadFast(" ++ Text.natText n ++ ")"
  | storeName n => "StoreName(" ++ Text.natText n ++ ")"
  | storeFast n => "StoreFast(" ++ Text.natText n ++ ")"
  | arith .add => "BinaryAdd"
  | arith .subtract => "BinarySubtract"
  | arith .multiply => "BinaryMultiply"
  | arith .trueDivide => "BinaryTrueDivide"
  | arith .floorDivide => "BinaryFloorDivide"
  | arith .modulo => "BinaryModulo"
  | negate => "UnaryNegative"
  | complement => "UnaryNot"
  | compare .eq => "CompareOp(Eq)"
  | compare .ne => "CompareOp(Ne)"
  | compare .lt => "CompareOp(Lt)"
  | compare .gt => "CompareOp(Gt)"
  | compare .le => "CompareOp(Le)"
  | compare .ge => "CompareOp(Ge)"
  | call n => "CallFunction(" ++ Text.natText n ++ ")"
  | popTop => "PopTop"
  | returnValue => "ReturnValue"
  | jump n => "JumpAbsolute(" ++ Text.natText n ++ ")"
  | popJumpIf false n => "PopJumpIfFalse(" ++ Text.natText n ++ ")"
  | popJumpIf true n => "PopJumpIfTrue(" ++ Text.natText n ++ ")"
  | jumpIfOrPop false n => "JumpIfFalseOrPop(" ++ Text.natText n ++ ")"
  | jumpIfOrPop true n => "JumpIfTrueOrPop(" ++ Text.natText n ++ ")"
  | getIter => "GetIter"
  | forIter n => "ForIter(" ++ Text.natText n ++ ")"
  | unknown mnemonic arg =>
    let arg := match arg with
      | none => "None"
      | some text => "Some(" ++ visibleText text ++ ")"
    "Unknown \x7b mnemonic: " ++ visibleText mnemonic ++ ", arg: " ++ arg ++ " \x7d"

end Opcode

/-- An operation with the line of the script or listing that it comes from. -/
structure Instruction where
  op : Opcode
  line : Nat
  deriving DecidableEq

end LessonScript
