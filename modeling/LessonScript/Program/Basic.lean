import LessonScript.Fault
import LessonScript.Program.Instruction
import LessonScript.Value.Order

/-!
Programs: instructions with the constants and names that they refer to.

A constant that can be written as a literal is entered once; it is found again by identity,
so `1`, `1.0` and `True` are three entries, and so are the two zeros.  Other values get an
entry of their own each time.  Names are entered once.
-/

namespace LessonScript

structure Program where
  code : Array Instruction
  constants : Array Value
  names : Array String
  deriving DecidableEq

namespace Program

def empty : Program :=
  ⟨#[], #[], #[]⟩

def length (p : Program) : Nat :=
  p.code.size

def addConstant (p : Program) (v : Value) : Program × Nat :=
  let known := if v.literal?.isSome then p.constants.findIdx? (· == v) else none
  match known with
  | some index => (p, index)
  | none =>
    let index := p.constants.size
    ({ p with constants := p.constants.push v }, index)

def addName (p : Program) (name : String) : Program × Nat :=
  match p.names.findIdx? (· == name) with
  | some index => (p, index)
  | none =>
    let index := p.names.size
    ({ p with names := p.names.push name }, index)

def emit (p : Program) (op : Opcode) (line : Nat) : Program × Nat :=
  let index := p.code.size
  ({ p with code := p.code.push ⟨op, line⟩ }, index)

def constant? (p : Program) (index : Nat) : Except Fault Value :=
  match p.constants[index]? with
  | some v => .ok v
  | none => .error (.internal ("constant index " ++ Text.natText index ++ " out of range"))

def name? (p : Program) (index : Nat) : Except Fault String :=
  match p.names[index]? with
  | some name => .ok name
  | none => .error (.internal ("name index " ++ Text.natText index ++ " out of range"))

def patchJump? (p : Program) (index target : Nat) : Except Fault Program :=
  let refused (found : String) : Except Fault Program :=
    .error (.internal
      ("cannot patch non-jump instruction at " ++ Text.natText index ++ ": " ++ found))
  match p.code[index]? with
  | none => refused "None"
  | some instruction =>
    match instruction.op.withTarget? target with
    | some op => .ok { p with code := p.code.set! index { instruction with op := op } }
    | none => refused ("Some(" ++ instruction.op.wording ++ ")")

/-- The two programs agree in their instructions, lines included, and their names, and
their constants are equal as scripts see it. -/
def agrees (p q : Program) : Bool :=
  p.code == q.code && p.names == q.names &&
    p.constants.size == q.constants.size &&
    (p.constants.toList.zip q.constants.toList).all fun pair => pair.1.equals pair.2

end Program

end LessonScript
