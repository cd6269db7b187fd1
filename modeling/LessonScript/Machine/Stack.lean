import LessonScript.Fault
import LessonScript.Value.Basic

/-!
The value stack.

A stack knows its values, the top first, and how many more it may hold, so it can never
hold more than its limit.  An operation of the running machine leaves a stack also when it
fails (`Stack.push` and so on); the same operation as a function of the stack alone gives
the new stack or the fault (`Stack.push?` and so on).
-/

namespace LessonScript

structure Stack where
  /-- The values, the top first. -/
  values : List Value
  /-- How many more values it may hold. -/
  room : Nat
  deriving DecidableEq

namespace Stack

def withLimit (limit : Nat) : Stack :=
  ⟨[], limit⟩

def limit (s : Stack) : Nat :=
  s.values.length + s.room

def depth (s : Stack) : Nat :=
  s.values.length

def push? (s : Stack) (v : Value) : Except Fault Stack :=
  match s.room with
  | 0 => .error (.limit (.depth s.limit))
  | room + 1 => .ok ⟨v :: s.values, room⟩

def pop? (s : Stack) (opcode : String) : Except Fault (Value × Stack) :=
  match s.values with
  | [] => .error (.underflow opcode)
  | v :: values => .ok (v, ⟨values, s.room + 1⟩)

def peek? (s : Stack) (opcode : String) : Except Fault Value :=
  match s.values with
  | [] => .error (.underflow opcode)
  | v :: _ => .ok v

def replaceTop? (s : Stack) (v : Value) (opcode : String) : Except Fault Stack :=
  match s.values with
  | [] => .error (.underflow opcode)
  | _ :: values => .ok ⟨v :: values, s.room⟩

/-- Takes so many values from the top, in the order in which they were pushed. -/
def popMany? (s : Stack) (count : Nat) (opcode : String) : Except Fault (List Value × Stack) :=
  if count ≤ s.depth then
    .ok ((s.values.take count).reverse, ⟨s.values.drop count, s.room + count⟩)
  else .error (.underflow opcode)

def push (v : Value) : EStateM Fault Stack Unit := fun s =>
  match s.room with
  | 0 => .error (.limit (.depth s.limit)) s
  | room + 1 => .ok () ⟨v :: s.values, room⟩

def pop (opcode : String) : EStateM Fault Stack Value := fun s =>
  match s.values with
  | [] => .error (.underflow opcode) s
  | v :: values => .ok v ⟨values, s.room + 1⟩

def peek (opcode : String) : EStateM Fault Stack Value := fun s =>
  match s.values with
  | [] => .error (.underflow opcode) s
  | v :: _ => .ok v s

def updateTop (change : Value → Value) (opcode : String) : EStateM Fault Stack Value := fun s =>
  match s.values with
  | [] => .error (.underflow opcode) s
  | v :: values => .ok v ⟨change v :: values, s.room⟩

def popMany (count : Nat) (opcode : String) : EStateM Fault Stack (List Value) := fun s =>
  if count ≤ s.depth then
    .ok (s.values.take count).reverse ⟨s.values.drop count, s.room + count⟩
  else .error (.underflow opcode) s

end Stack

end LessonScript
