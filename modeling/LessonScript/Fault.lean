import LessonScript.Value.Kind
import LessonScript.Text.Numeral

/-!
What can go wrong, and how it is worded.

A `Fault` is a cause; its wording is `Fault.message` and its heading for the student is
`Fault.category`.  An `Error` is a fault together with the place in the running program
where it arose.  A syntax fault carries its own place in the text.
-/

namespace LessonScript

inductive ArithmeticFault where
  | divisionByZero
  | overflow (op : String)
  | operands (op : String) (left right : Kind)
  | operand (op : String) (kind : Kind)
  deriving DecidableEq

namespace ArithmeticFault

def message : ArithmeticFault → String
  | divisionByZero => "division by zero"
  | overflow op => "integer overflow in '" ++ op ++ "'"
  | operands op left right =>
    "unsupported operand types for " ++ op ++ ": '" ++ left.name ++ "' and '" ++ right.name ++ "'"
  | operand op kind => "bad operand type for unary " ++ op ++ ": '" ++ kind.name ++ "'"

end ArithmeticFault

inductive CallFault where
  | notCallable (kind : Kind)
  | arity (name : String) (expected : Arity) (actual : Nat)
  | argument (name message : String)
  | unavailable (capability : String)
  deriving DecidableEq

namespace CallFault

def message : CallFault → String
  | notCallable kind => "'" ++ kind.name ++ "' object is not callable"
  | arity name expected actual =>
    name ++ "() takes " ++ expected.text ++ " argument(s) but " ++ Text.natText actual ++
      " were given"
  | argument name message => name ++ "(): " ++ message
  | unavailable capability => capability ++ "() is not available here"

end CallFault

inductive LimitFault where
  | steps (limit : Nat)
  | depth (limit : Nat)
  deriving DecidableEq

namespace LimitFault

def message : LimitFault → String
  | steps limit =>
    "step budget (" ++ Text.natText limit ++ ") exhausted; is there an endless loop?"
  | depth limit => "max stack depth (" ++ Text.natText limit ++ ") exceeded"

end LimitFault

/-- A complaint about a text, with its place and the line that holds it. -/
structure SyntaxFault where
  message : String
  line : Nat
  column : Nat
  source : String
  deriving DecidableEq

inductive Fault where
  | malformed (fault : SyntaxFault)
  | undefinedName (name : String)
  | underflow (opcode : String)
  | unknownOpcode (opcode : String) (arg : Option String)
  | arithmetic (fault : ArithmeticFault)
  | call (fault : CallFault)
  | typeMismatch (expected : String) (actual : Kind)
  | limit (fault : LimitFault)
  | unreadable (path reason : String)
  | internal (message : String)
  deriving DecidableEq

namespace Fault

def overflow (op : String) : Fault :=
  .arithmetic (.overflow op)

def argument (name message : String) : Fault :=
  .call (.argument name message)

def category : Fault → String
  | malformed _ => "SyntaxError"
  | undefinedName _ => "NameError"
  | underflow _ => "StackUnderflow"
  | unknownOpcode .. => "UnknownOpcode"
  | arithmetic _ => "ArithmeticError"
  | call _ => "CallError"
  | typeMismatch .. => "TypeError"
  | limit _ => "LimitExceeded"
  | unreadable .. => "IoError"
  | internal _ => "InternalError"

def message : Fault → String
  | malformed fault =>
    "line " ++ Text.natText fault.line ++ ":" ++ Text.natText fault.column ++ ": " ++ fault.message
  | undefinedName name => "name '" ++ name ++ "' is not defined"
  | underflow opcode => "stack underflow in " ++ opcode
  | unknownOpcode opcode none => "unknown opcode " ++ opcode
  | unknownOpcode opcode (some arg) => "unknown opcode " ++ opcode ++ " " ++ arg
  | arithmetic fault => fault.message
  | call fault => fault.message
  | typeMismatch expected actual => "expected " ++ expected ++ ", got " ++ actual.name
  | limit fault => "limit exceeded: " ++ fault.message
  | unreadable path reason => "cannot read " ++ path ++ ": " ++ reason
  | internal message => "internal error: " ++ message

/-- The fault was found in the text, before anything ran. -/
def isSyntax : Fault → Bool
  | malformed _ => true
  | _ => false

def isDefect : Fault → Bool
  | underflow _ | internal _ => true
  | _ => false

end Fault

structure Site where
  line : Option Nat
  offset : Option Nat
  opcode : Option String
  deriving DecidableEq

namespace Site

/-- The wording of a place: line, instruction and offset, as far as they are known. -/
def text (site : Site) : String :=
  let line := site.line.elim "" fun n => "line " ++ Text.natText n
  let opcode := site.opcode.elim "" fun name =>
    (if site.line.isSome then ", " else "") ++ "in " ++ name
  let offset := site.offset.elim "" fun n =>
    (if site.line.isSome || site.opcode.isSome then " " else "") ++ "@" ++ Text.natText n
  line ++ opcode ++ offset

end Site

/-- A fault and, for a running program, the place where it arose. -/
structure Error where
  fault : Fault
  site : Option Site
  deriving DecidableEq

namespace Error

def ofFault (fault : Fault) : Error :=
  ⟨fault, none⟩

def line? (error : Error) : Option Nat :=
  match error.fault with
  | .malformed fault => some fault.line
  | _ => error.site.bind Site.line

/-- The error as the student reads it: heading, line and wording.  The wording of a syntax
fault stands without its place, which the heading already gives. -/
def describe (error : Error) : String :=
  let detail := match error.fault with
    | .malformed fault => fault.message
    | fault => fault.message
  let place := error.line?.elim "" fun n => " on line " ++ Text.natText n
  error.fault.category ++ place ++ ": " ++ detail

end Error

theorem exists_of_bind_ok {ε α β : Type} {x : Except ε α} {f : α → Except ε β} {b : β}
    (done : x.bind f = .ok b) : ∃ a, x = .ok a ∧ f a = .ok b := by
  cases x with
  | error e => cases done
  | ok a => exact ⟨a, rfl, done⟩

theorem exists_ok_of_isOk {ε α : Type} {x : Except ε α} (done : x.isOk = true) :
    ∃ a, x = .ok a := by
  cases x with
  | error e => cases done
  | ok a => exact ⟨a, rfl⟩

end LessonScript
