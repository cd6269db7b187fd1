import LessonScript.Binary64.Reading
import LessonScript.Program.Listing

/-!
Reading programs from listings.

A line holds a mnemonic and, behind white space, an operand; blank lines and lines that
start with a number sign are passed over.  Each instruction keeps the number of its line.
A known mnemonic must have the operand that it needs; an unknown one takes any.
-/

namespace LessonScript

namespace Assembly

/-- Why a line of a listing is refused. -/
inductive Complaint where
  | missing (what : String)
  | invalidNumber (text : String)
  | invalidName (text : String)
  | invalidComparison (text : String)
  | invalidConstant (text : String)
  | unterminatedString
  | invalidEscape
  | textBehindString
  | needlessOperand (mnemonic : String)
  deriving DecidableEq

namespace Complaint

def message : Complaint → String
  | missing what => "expected " ++ what ++ " operand"
  | invalidNumber text => "invalid integer operand: " ++ text
  | invalidName text => "invalid name operand: " ++ text
  | invalidComparison text => "invalid comparison operand: " ++ text
  | invalidConstant text => "invalid constant operand: " ++ text
  | unterminatedString => "unterminated string literal"
  | invalidEscape => "invalid escape sequence"
  | textBehindString => "unexpected text after string literal"
  | needlessOperand mnemonic => mnemonic ++ " takes no operand"

end Complaint

def required (what : String) : Option (List Char) → Except Complaint (List Char)
  | some text => .ok text
  | none => .error (.missing what)

def number (operand : Option (List Char)) : Except Complaint Nat := do
  let text ← required "an integer" operand
  match Text.readNatBelow? 0x100000000 text with
  | some n => .ok n
  | none => .error (.invalidNumber (String.ofList text))

def isName : List Char → Bool
  | c :: cs => Text.isNameStart c && cs.all Text.isNamePart
  | [] => false

def identifier (operand : Option (List Char)) : Except Complaint String := do
  let text ← required "a name" operand
  if isName text then .ok (String.ofList text)
  else .error (.invalidName (String.ofList text))

def comparison (operand : Option (List Char)) : Except Complaint CompareOp := do
  let text ← required "a comparison" operand
  match CompareOp.ofSymbol? (String.ofList text) with
  | some op => .ok op
  | none => .error (.invalidComparison (String.ofList text))

/-- Reads a string literal behind its opening quote, to the end of the text.  The
characters read so far come last first. -/
def stringBody (quote : Char) : List Char → List Char → Except Complaint (List Char)
  | _, [] => .error .unterminatedString
  | value, c :: cs =>
    if c = quote then if cs.isEmpty then .ok value.reverse else .error .textBehindString
    else if c = '\\' then
      match cs with
      | [] => .error .invalidEscape
      | letter :: cs =>
        match unescape? letter with
        | some escaped => stringBody quote (escaped :: value) cs
        | none => .error .invalidEscape
    else stringBody quote (c :: value) cs

def isNumberChar (c : Char) : Bool :=
  c.isDigit || c == '.' || c == 'e' || c == 'E' || c == '+' || c == '-'

/-- Reads a number: an integer if it is one, and a floating point number otherwise. -/
def numberLiteral (text : List Char) : Except Complaint Literal :=
  match Text.readInt64? text with
  | some n => .ok (.int n)
  | none =>
    match Binary64.ofChars? text with
    | some x =>
      if text.all isNumberChar then .ok (.float x)
      else .error (.invalidConstant (String.ofList text))
    | none => .error (.invalidConstant (String.ofList text))

def wordLiteral? (word : String) : Option Literal :=
  match word with
  | "None" => some .nothing
  | "True" => some (.bool true)
  | "False" => some (.bool false)
  | "inf" => some (.float (.infinity false))
  | "-inf" => some (.float (.infinity true))
  | "nan" => some (.float (.nan false))
  | _ => none

def literal (operand : Option (List Char)) : Except Complaint Literal := do
  let text ← required "a constant" operand
  match wordLiteral? (String.ofList text) with
  | some l => .ok l
  | none =>
    match text with
    | c :: cs =>
      if c = '\'' ∨ c = '"' then
        return .str (String.ofList (← stringBody c [] cs))
      else numberLiteral text
    | [] => numberLiteral text

def numbered? (mnemonic : String) : Option (Nat → Opcode) :=
  match mnemonic with
  | "CALL_FUNCTION" => some .call
  | "JUMP_ABSOLUTE" => some .jump
  | "POP_JUMP_IF_FALSE" => some (.popJumpIf false)
  | "POP_JUMP_IF_TRUE" => some (.popJumpIf true)
  | "JUMP_IF_FALSE_OR_POP" => some (.jumpIfOrPop false)
  | "JUMP_IF_TRUE_OR_POP" => some (.jumpIfOrPop true)
  | "FOR_ITER" => some .forIter
  | _ => none

def named? (mnemonic : String) : Option (Nat → Opcode) :=
  match mnemonic with
  | "LOAD_NAME" => some .loadName
  | "LOAD_FAST" => some .loadFast
  | "STORE_NAME" => some .storeName
  | "STORE_FAST" => some .storeFast
  | _ => none

def bare? (mnemonic : String) : Option Opcode :=
  match mnemonic with
  | "BINARY_ADD" => some (.arith .add)
  | "BINARY_SUBTRACT" => some (.arith .subtract)
  | "BINARY_MULTIPLY" => some (.arith .multiply)
  | "BINARY_TRUE_DIVIDE" => some (.arith .trueDivide)
  | "BINARY_FLOOR_DIVIDE" => some (.arith .floorDivide)
  | "BINARY_MODULO" => some (.arith .modulo)
  | "UNARY_NEGATIVE" => some .negate
  | "UNARY_NOT" => some .complement
  | "POP_TOP" => some .popTop
  | "RETURN_VALUE" => some .returnValue
  | "GET_ITER" => some .getIter
  | _ => none

def operation (p : Program) (mnemonic : String) (operand : Option (List Char)) :
    Except Complaint (Program × Opcode) :=
  if mnemonic = "LOAD_CONST" then do
    let (p, index) := p.addConstant (← literal operand).value
    return (p, .loadConst index)
  else if mnemonic = "COMPARE_OP" then do
    return (p, .compare (← comparison operand))
  else
    match named? mnemonic, numbered? mnemonic, bare? mnemonic with
    | some op, _, _ => do
      let (p, index) := p.addName (← identifier operand)
      return (p, op index)
    | none, some op, _ => do
      return (p, op (← number operand))
    | none, none, some op =>
      if operand.isSome then .error (.needlessOperand mnemonic) else .ok (p, op)
    | none, none, none => .ok (p, .unknown mnemonic (operand.map String.ofList))

def addLine (p : Program) (number : Nat) (line : String) : Except Error Program :=
  let raw := line.toList
  let text := Text.trim raw
  if text.isEmpty || text.head? == some '#' then .ok p
  else
    let (mnemonic, operand) := match Text.splitAtSpace text with
      | some (word, rest) => (word, some (Text.trim rest))
      | none => (text, none)
    match operation p (String.ofList mnemonic) operand with
    | .ok (p, op) => .ok (p.emit op number).1
    | .error complaint =>
      .error (.ofFault (.malformed
        { message := complaint.message
          line := number
          column := Text.byteLength (Text.leadingSpace raw) + 1
          source := line }))

def addLines (p : Program) : Nat → List String → Except Error Program
  | _, [] => .ok p
  | number, line :: rest => do
    let p ← addLine p number line
    addLines p (number + 1) rest

end Assembly

def Program.ofListing? (lines : List String) : Except Error Program :=
  Assembly.addLines .empty 1 lines

end LessonScript
