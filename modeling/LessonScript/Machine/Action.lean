import LessonScript.Limits
import LessonScript.Machine.Bindings
import LessonScript.Machine.Calls
import LessonScript.Machine.Stack
import LessonScript.Program.Basic

/-!
What an instruction does to the machine.

An instruction is an `Action`: it changes the machine step by step, and where one of its steps
fails it leaves the machine as the steps before have made it.  Operands that were taken from the
stack stay away then, and the local bindings are what they were, for a binding is stored last.
Only a call can reach the host.
-/

namespace LessonScript

structure Machine where
  stack : Stack
  locals : Locals
  /-- The index of the next instruction. -/
  next : Nat
  deriving DecidableEq

/-- A computation on a machine that may fail.  It leaves a machine in either case. -/
abbrev Action :=
  EStateM Fault Machine

namespace Machine

def initial (limits : Limits) : Machine :=
  ⟨.withLimit limits.maxStackDepth, [], 0⟩

def iterationOf : Value → Except Fault Iteration
  | .range p => .ok (.ofProgression p)
  | .str s => .ok (.ofText s)
  | .iter i => .ok i
  | v => .error (.typeMismatch "an iterable (range or str)" v.kind)

end Machine

namespace Action

variable {α : Type}

def ofExcept (result : Except Fault α) : Action α := fun m =>
  match result with
  | .ok a => .ok a m
  | .error fault => .error fault m

def onStack (operation : EStateM Fault Stack α) : Action α := fun m =>
  match operation m.stack with
  | .ok a stack => .ok a { m with stack := stack }
  | .error fault stack => .error fault { m with stack := stack }

def push (v : Value) : Action Unit :=
  onStack (Stack.push v)

def pop (opcode : String) : Action Value :=
  onStack (Stack.pop opcode)

def peek (opcode : String) : Action Value :=
  onStack (Stack.peek opcode)

def load (builtins : BuiltinSet) (name : String) : Action Value := do
  ofExcept ((← get).locals.load? builtins name)

def store (name : String) (v : Value) : Action Unit :=
  modify fun m => { m with locals := m.locals.store name v }

def jump (p : Program) (target : Nat) : Action Unit := fun m =>
  if target ≤ p.length then .ok () { m with next := target }
  else .error (.internal ("jump target " ++ Text.natText target ++ " outside program of " ++
    Text.natText p.length ++ " instructions")) m

def binary (opcode : String) (f : Value → Value → Except Fault Value) : Action Unit := do
  let b ← pop opcode
  let a ← pop opcode
  push (← ofExcept (f a b))

def unary (opcode : String) (f : Value → Except Fault Value) : Action Unit := do
  let a ← pop opcode
  push (← ofExcept (f a))

def advanced : Value → Value
  | .iter i => .iter ((i.advance?.map Prod.snd).getD i)
  | v => v

/-- Pushes the next item of the iteration on top, or drops it and jumps. -/
def forIter (p : Program) (opcode : String) (target : Nat) : Action Unit := do
  match ← onStack (Stack.updateTop advanced opcode) with
  | .iter i =>
    match i.advance? with
    | some (item, _) => push item
    | none =>
      let _ ← pop opcode
      jump p target
  | v => throw (.typeMismatch "an iterator" v.kind)

/-- The effect of an instruction that does not call, on a machine that already points at the
instruction behind it.  A value ends the run. -/
def perform (p : Program) (builtins : BuiltinSet) (op : Opcode) : Action (Option Value) := do
  let name := op.name
  match op with
  | .loadConst index => push (← ofExcept (p.constant? index))
  | .loadName index | .loadFast index => push (← load builtins (← ofExcept (p.name? index)))
  | .storeName index | .storeFast index =>
    let v ← pop name
    store (← ofExcept (p.name? index)) v
  | .arith op => binary name (Value.arith op)
  | .negate => unary name Value.negate
  | .complement => unary name fun v => .ok (.bool (!v.isTruthy))
  | .compare op => binary name (Value.comparison op)
  | .call _ => pure ()
  | .popTop =>
    let _ ← pop name
  | .returnValue => return some (← pop name)
  | .jump target => jump p target
  | .popJumpIf truth target => if (← pop name).isTruthy = truth then jump p target
  | .jumpIfOrPop truth target =>
    if (← peek name).isTruthy = truth then jump p target
    else
      let _ ← pop name
  | .getIter => push (.iter (← ofExcept (Machine.iterationOf (← pop name))))
  | .forIter target => forIter p name target
  | .unknown mnemonic arg => throw (.unknownOpcode mnemonic arg)
  return none

def operands (opcode : String) (count : Nat) : Action (List Value × Value) := do
  let args ← onStack (Stack.popMany count opcode)
  return (args, ← pop opcode)

def call {σ : Type} (host : Host σ) (opcode : String) (count : Nat) (m : Machine) (world : σ) :
    EStateM.Result Fault Machine (Option Value) × σ :=
  match operands opcode count m with
  | .error fault m => (.error fault m, world)
  | .ok (args, .builtin f) m =>
    let (result, world) := f.call host world args
    ((do push (← ofExcept result); return none : Action (Option Value)) m, world)
  | .ok (_, v) m => (.error (.call (.notCallable v.kind)) m, world)

def dispatch {σ : Type} (p : Program) (builtins : BuiltinSet) (host : Host σ) (op : Opcode)
    (m : Machine) (world : σ) : EStateM.Result Fault Machine (Option Value) × σ :=
  match op with
  | .call count => call host op.name count m world
  | op => (perform p builtins op m, world)

end Action

end LessonScript
