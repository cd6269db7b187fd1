import LessonScript.Program.Basic
import LessonScript.Text.Lines
import LessonScript.Value.Text

/-!
Programs as text.

A listing has one line for each instruction, the mnemonic and the operand in full: the
literal, the name, the operator or the number.  It can be read back.  A disassembly is a
table for the eye, with lines, offsets, marks at the targets of jumps, and both the number
and the meaning of an operand.
-/

namespace LessonScript.Program

/-- The operand of an instruction in a listing.  An index without an entry stands behind a
number sign. -/
def operandText? (p : Program) (op : Opcode) : Option String :=
  let unresolved (index : Nat) := "#" ++ Text.natText index
  match op with
  | .loadConst index =>
    some ((p.constants[index]?).elim (unresolved index) Value.repr)
  | .loadName index | .loadFast index | .storeName index | .storeFast index =>
    some ((p.names[index]?).getD (unresolved index))
  | .compare op => some op.symbol
  | .unknown _ arg => arg
  | op => op.operand?.map Text.natText

def listingLine (p : Program) (op : Opcode) : String :=
  match p.operandText? op with
  | some operand => op.mnemonic ++ " " ++ operand
  | none => op.mnemonic

def listing (p : Program) : List String :=
  p.code.toList.map fun instruction => p.listingLine instruction.op

def meaning? (p : Program) (op : Opcode) : Option String :=
  match op with
  | .loadConst index => (p.constants[index]?).map Value.repr
  | .loadName index | .loadFast index | .storeName index | .storeFast index => p.names[index]?
  | .compare op => some op.symbol
  | op => op.target?.map fun target => "to " ++ Text.natText target

def rawOperand? (op : Opcode) : Option String :=
  match op with
  | .unknown _ arg => arg
  | op => op.operand?.map Text.natText

def operandColumn (raw meaning : Option String) : String :=
  match raw, meaning with
  | some raw, some meaning =>
    " " ++ Text.padLeft 4 raw ++ (if meaning = raw then "" else " (" ++ meaning ++ ")")
  | some raw, none => " " ++ Text.padLeft 4 raw
  | none, some meaning => "      (" ++ meaning ++ ")"
  | none, none => ""

/-- The column of line numbers: a number where the line changes, with an empty line before
it unless it is the first. -/
def lineColumn (previous : Option Nat) (line : Nat) : String :=
  if previous = some line then Text.padLeft 4 ""
  else (if previous.isSome then "\n" else "") ++ Text.padLeft 4 (Text.natText line)

/-- For each instruction, whether some jump leads to it. -/
def targetMarks (p : Program) : Array Bool :=
  p.code.foldl
    (fun marks instruction =>
      match instruction.op.target? with
      | some target => marks.setIfInBounds target true
      | none => marks)
    (.replicate p.length false)

def rows (p : Program) (marks : Array Bool) :
    Option Nat → Nat → List Instruction → List String
  | _, _, [] => []
  | previous, offset, instruction :: rest =>
    let mark := if (marks[offset]?).getD false then ">>" else ""
    let row :=
      lineColumn previous instruction.line ++ " " ++ Text.padLeft 3 mark ++ " " ++
        Text.padLeft 4 (Text.natText offset) ++ " " ++
        Text.padRight 22 instruction.op.mnemonic ++
        operandColumn (rawOperand? instruction.op) (p.meaning? instruction.op) ++ "\n"
    row :: rows p marks (some instruction.line) (offset + 1) rest

def disassembly (p : Program) : String :=
  String.join (p.rows p.targetMarks none 0 p.code.toList)

end LessonScript.Program
