import LessonScript.Machine.Run

/-!
Instructions as functions of the machine.

Proofs look at an instruction as a function of the machine that gives a machine to go on with, the
end of the run, or a fault (`Machine.dispatch`).  This is what the running machine does, apart from
what it leaves of its operands when it fails (`Action.dispatch_shows`); the local bindings are as
they were then (`Action.dispatch_locals`).  So a run on a machine has the report of the
same run in terms of these functions (`Program.run?_eq`).
-/

namespace LessonScript

namespace Machine

/-- What an instruction leads to: a machine to go on with, or the end of the run. -/
inductive Flow where
  | goOn (m : Machine)
  | finish (result : Value) (m : Machine)

def push? (m : Machine) (v : Value) : Except Fault Machine := do
  return { m with stack := ← m.stack.push? v }

def jump? (p : Program) (m : Machine) (target : Nat) : Except Fault Machine :=
  if target ≤ p.length then .ok { m with next := target }
  else .error (.internal ("jump target " ++ Text.natText target ++ " outside program of " ++
    Text.natText p.length ++ " instructions"))

def binary? (m : Machine) (opcode : String) (f : Value → Value → Except Fault Value) :
    Except Fault Machine := do
  let (b, stack) ← m.stack.pop? opcode
  let (a, stack) ← stack.pop? opcode
  push? { m with stack := stack } (← f a b)

def unary? (m : Machine) (opcode : String) (f : Value → Except Fault Value) :
    Except Fault Machine := do
  let (a, stack) ← m.stack.pop? opcode
  push? { m with stack := stack } (← f a)

/-- Pushes the next item of the iteration on top, or drops it and jumps. -/
def forIter? (p : Program) (m : Machine) (opcode : String) (target : Nat) :
    Except Fault Machine := do
  match ← m.stack.peek? opcode with
  | .iter i =>
    match i.advance? with
    | some (item, i) =>
      let stack ← m.stack.replaceTop? (.iter i) opcode
      push? { m with stack := stack } item
    | none =>
      let (_, stack) ← m.stack.pop? opcode
      jump? p { m with stack := stack } target
  | v => .error (.typeMismatch "an iterator" v.kind)

/-- The effect of an instruction that does not call, on a machine that already points at
the instruction behind it. -/
def perform? (p : Program) (builtins : BuiltinSet) (m : Machine) (op : Opcode) :
    Except Fault Flow :=
  let name := op.name
  match op with
  | .loadConst index => do return .goOn (← m.push? (← p.constant? index))
  | .loadName index | .loadFast index => do
    return .goOn (← m.push? (← m.locals.load? builtins (← p.name? index)))
  | .storeName index | .storeFast index => do
    let (v, stack) ← m.stack.pop? name
    let id ← p.name? index
    return .goOn { m with stack := stack, locals := m.locals.store id v }
  | .arith op => do return .goOn (← m.binary? name (Value.arith op))
  | .negate => do return .goOn (← m.unary? name Value.negate)
  | .complement => do return .goOn (← m.unary? name fun v => .ok (.bool (!v.isTruthy)))
  | .compare op => do return .goOn (← m.binary? name (Value.comparison op))
  | .call _ => .ok (.goOn m)
  | .popTop => do
    let (_, stack) ← m.stack.pop? name
    return .goOn { m with stack := stack }
  | .returnValue => do
    let (v, stack) ← m.stack.pop? name
    return .finish v { m with stack := stack }
  | .jump target => do return .goOn (← m.jump? p target)
  | .popJumpIf truth target => do
    let (v, stack) ← m.stack.pop? name
    let m := { m with stack := stack }
    if v.isTruthy = truth then return .goOn (← m.jump? p target) else return .goOn m
  | .jumpIfOrPop truth target => do
    let v ← m.stack.peek? name
    if v.isTruthy = truth then return .goOn (← m.jump? p target)
    else
      let (_, stack) ← m.stack.pop? name
      return .goOn { m with stack := stack }
  | .getIter => do
    let (v, stack) ← m.stack.pop? name
    let i ← iterationOf v
    return .goOn (← push? { m with stack := stack } (.iter i))
  | .forIter target => do return .goOn (← m.forIter? p name target)
  | .unknown mnemonic arg => .error (.unknownOpcode mnemonic arg)

/-- The callee and the arguments on the stack, and the machine without them. -/
def callOperands? (m : Machine) (opcode : String) (count : Nat) :
    Except Fault (Value × List Value × Machine) := do
  let (args, stack) ← m.stack.popMany? count opcode
  let (callee, stack) ← stack.pop? opcode
  return (callee, args, { m with stack := stack })

def performCall {σ : Type} (host : Host σ) (world : σ) (m : Machine) (opcode : String)
    (count : Nat) : Except Fault Flow × σ :=
  match m.callOperands? opcode count with
  | .error fault => (.error fault, world)
  | .ok (.builtin f, args, m) =>
    let (result, world) := f.call host world args
    ((do return .goOn (← m.push? (← result))), world)
  | .ok (v, _, _) => (.error (.call (.notCallable v.kind)), world)

/-- The effect of an instruction, with the state of the host behind it. -/
def dispatch {σ : Type} (p : Program) (builtins : BuiltinSet) (host : Host σ) (m : Machine)
    (world : σ) (op : Opcode) : Except Fault Flow × σ :=
  match op with
  | .call count => m.performCall host world op.name count
  | op => (m.perform? p builtins op, world)

end Machine

namespace Action

/-- An action gives what a function gives, and where it fails it leaves the bindings of `m`. -/
inductive Shows {α β : Type} (m : Machine) (R : α → Machine → β → Prop) :
    EStateM.Result Fault Machine α → Except Fault β → Prop
  | ok {a : α} {after : Machine} {b : β} (related : R a after b) :
      Shows m R (.ok a after) (.ok b)
  | error {fault : Fault} {left : Machine} (kept : left.locals = m.locals) :
      Shows m R (.error fault left) (.error fault)

def Moves (_ : Unit) (after next : Machine) : Prop :=
  after = next

def Takes {α : Type} (m : Machine) (taken : α) (after : Machine) (given : α × Stack) : Prop :=
  taken = given.1 ∧ after = { m with stack := given.2 }

def Finds {α : Type} (m : Machine) (found : α) (after : Machine) (given : α) : Prop :=
  found = given ∧ after = m

/-- The action ends an instruction: the run goes on with the machine, or ends with a value. -/
inductive Ends : Option Value → Machine → Machine.Flow → Prop
  | goOn (m : Machine) : Ends none m (.goOn m)
  | finish (v : Value) (m : Machine) : Ends (some v) m (.finish v m)

section Shows

variable {α β γ δ : Type} {m current : Machine} {R : α → Machine → β → Prop}
  {S : γ → Machine → δ → Prop}

theorem Shows.bind {act : Action α} {x : Except Fault β} {f : α → Action γ} {g : β → Except Fault δ}
    (first : Shows m R (act current) x)
    (next : ∀ a after b, R a after b → Shows m S (f a after) (g b)) :
    Shows m S ((act >>= f) current) (x >>= g) := by
  change Shows m S (EStateM.bind act f current) (x >>= g)
  unfold EStateM.bind
  generalize act current = outcome at first ⊢
  cases first with
  | ok related => exact next _ _ _ related
  | error kept => exact .error kept

theorem Shows.goOn {act : Action Unit} {x : Except Fault Machine}
    (shows : Shows m Moves (act current) x) :
    Shows m Ends ((act >>= fun _ => pure none) current) (x >>= fun m => .ok (.goOn m)) := by
  apply shows.bind
  rintro _ after _ rfl
  exact .ok (.goOn after)

variable (same : current.locals = m.locals)

include same

theorem ofExcept_shows (result : Except Fault α) :
    Shows m (Finds current) (ofExcept result current) result := by
  cases result with
  | ok a => exact .ok ⟨rfl, rfl⟩
  | error fault => exact .error same

theorem Shows.computing {result : Except Fault α} {f : α → Action γ} {g : α → Except Fault δ}
    (next : ∀ a, Shows m S (f a current) (g a)) :
    Shows m S ((ofExcept result >>= f) current) (result >>= g) := by
  refine (ofExcept_shows same result).bind ?_
  rintro a _ _ ⟨rfl, rfl⟩
  exact next a

theorem push_shows (v : Value) : Shows m Moves (push v current) (current.push? v) := by
  rcases current with ⟨⟨values, room⟩, locals, next⟩
  cases room with
  | zero => exact .error same
  | succ room => exact .ok rfl

theorem pop_shows (opcode : String) :
    Shows m (Takes current) (pop opcode current) (current.stack.pop? opcode) := by
  rcases current with ⟨⟨values, room⟩, locals, next⟩
  cases values with
  | nil => exact .error same
  | cons v values => exact .ok ⟨rfl, rfl⟩

theorem peek_shows (opcode : String) :
    Shows m (Finds current) (peek opcode current) (current.stack.peek? opcode) := by
  rcases current with ⟨⟨values, room⟩, locals, next⟩
  cases values with
  | nil => exact .error same
  | cons v values => exact .ok ⟨rfl, rfl⟩

theorem popMany_shows (opcode : String) (count : Nat) :
    Shows m (Takes current) (onStack (Stack.popMany count opcode) current)
      (current.stack.popMany? count opcode) := by
  by_cases enough : count ≤ current.stack.depth
  · simp only [onStack, Stack.popMany, Stack.popMany?, if_pos enough]
    exact .ok ⟨rfl, rfl⟩
  · simp only [onStack, Stack.popMany, Stack.popMany?, if_neg enough]
    exact .error same

theorem load_shows (builtins : BuiltinSet) (name : String) :
    Shows m (Finds current) (load builtins name current) (current.locals.load? builtins name) :=
  ofExcept_shows same _

theorem jump_shows (p : Program) (target : Nat) :
    Shows m Moves (jump p target current) (current.jump? p target) := by
  by_cases inside : target ≤ p.length
  · simp only [jump, Machine.jump?, if_pos inside]
    exact .ok rfl
  · simp only [jump, Machine.jump?, if_neg inside]
    exact .error same

theorem unary_shows (opcode : String) (f : Value → Except Fault Value) :
    Shows m Moves (unary opcode f current) (current.unary? opcode f) := by
  refine (pop_shows same opcode).bind ?_
  rintro a _ ⟨_, stack⟩ ⟨rfl, rfl⟩
  exact .computing (by exact same) fun v => push_shows (by exact same) v

theorem binary_shows (opcode : String) (f : Value → Value → Except Fault Value) :
    Shows m Moves (binary opcode f current) (current.binary? opcode f) := by
  refine (pop_shows same opcode).bind ?_
  rintro b _ ⟨_, stack⟩ ⟨rfl, rfl⟩
  refine Shows.bind (pop_shows (by exact same) opcode) ?_
  rintro a _ ⟨_, stack⟩ ⟨rfl, rfl⟩
  exact .computing (by exact same) fun v => push_shows (by exact same) v

theorem updateTop_shows (change : Value → Value) (opcode : String) :
    Shows m (fun v after found => v = found ∧ current.stack.values.head? = some v ∧
        after = { current with
          stack := ⟨change v :: current.stack.values.tail, current.stack.room⟩ })
      (onStack (Stack.updateTop change opcode) current) (current.stack.peek? opcode) := by
  rcases current with ⟨⟨values, room⟩, locals, next⟩
  cases values with
  | nil => exact .error same
  | cons v values => exact .ok ⟨rfl, rfl, rfl⟩

theorem forIter_shows (p : Program) (opcode : String) (target : Nat) :
    Shows m Moves (forIter p opcode target current) (current.forIter? p opcode target) := by
  rcases current with ⟨⟨values, room⟩, locals, next⟩
  refine (updateTop_shows same advanced opcode).bind ?_
  rintro v _ _ ⟨rfl, onTop, rfl⟩
  obtain ⟨values, rfl⟩ := List.head?_eq_some_iff.mp onTop
  cases v with
  | iter i =>
      cases item : i.advance? with
      | none =>
          simp only [advanced, item]
          exact jump_shows (by exact same) p target
      | some found =>
          simp only [advanced, item]
          exact push_shows (by exact same) found.1
  | nothing | bool | int | float | str | builtin | range => exact .error same

omit same

theorem Shows.goesOn (m : Machine) : Shows m Ends (.ok none current) (.ok (.goOn current)) :=
  .ok (.goOn current)

theorem perform_shows (p : Program) (builtins : BuiltinSet) (op : Opcode) (m : Machine) :
    Shows m Ends (perform p builtins op m) (m.perform? p builtins op) := by
  unfold perform
  cases op with
  | loadConst index =>
      exact .computing rfl fun v => (push_shows rfl v).goOn
  | loadName index | loadFast index =>
      refine .computing rfl fun id => ?_
      refine (load_shows rfl builtins id).bind ?_
      rintro v _ _ ⟨rfl, rfl⟩
      exact (push_shows rfl v).goOn
  | storeName index | storeFast index =>
      refine (pop_shows rfl _).bind ?_
      rintro v _ ⟨_, stack⟩ ⟨rfl, rfl⟩
      exact .computing (by rfl) fun id => .goesOn m
  | arith op => exact (binary_shows rfl _ _).goOn
  | compare op => exact (binary_shows rfl _ _).goOn
  | negate => exact (unary_shows rfl _ _).goOn
  | complement => exact (unary_shows rfl _ _).goOn
  | call count => exact .goesOn m
  | popTop =>
      refine (pop_shows rfl _).bind ?_
      rintro v _ ⟨_, stack⟩ ⟨rfl, rfl⟩
      exact .goesOn m
  | returnValue =>
      refine (pop_shows rfl _).bind ?_
      rintro v _ ⟨_, stack⟩ ⟨rfl, rfl⟩
      exact .ok (.finish v _)
  | jump target => exact (jump_shows rfl p target).goOn
  | popJumpIf truth target =>
      refine (pop_shows rfl _).bind ?_
      rintro v _ ⟨_, stack⟩ ⟨rfl, rfl⟩
      dsimp only
      split
      · exact (jump_shows (by rfl) p target).goOn
      · exact .goesOn m
  | jumpIfOrPop truth target =>
      refine (peek_shows rfl _).bind ?_
      rintro v _ _ ⟨rfl, rfl⟩
      split
      · exact (jump_shows rfl p target).goOn
      · refine (pop_shows rfl _).bind ?_
        rintro w _ ⟨_, stack⟩ ⟨rfl, rfl⟩
        exact .goesOn _
  | getIter =>
      refine (pop_shows rfl _).bind ?_
      rintro v _ ⟨_, stack⟩ ⟨rfl, rfl⟩
      exact .computing (by rfl) fun i => (push_shows (by rfl) _).goOn
  | forIter target => exact (forIter_shows rfl p _ target).goOn
  | unknown => exact .error rfl

theorem operands_shows (m : Machine) (opcode : String) (count : Nat) :
    Shows m (fun given after taken =>
        given = (taken.2.1, taken.1) ∧ after = taken.2.2 ∧ after.locals = m.locals)
      (operands opcode count m) (m.callOperands? opcode count) := by
  refine (popMany_shows rfl opcode count).bind ?_
  rintro args _ ⟨_, stack⟩ ⟨rfl, rfl⟩
  refine (pop_shows (by rfl) opcode).bind ?_
  rintro callee _ ⟨_, stack⟩ ⟨rfl, rfl⟩
  exact .ok ⟨rfl, rfl, rfl⟩

theorem call_shows {σ : Type} (host : Host σ) (opcode : String) (count : Nat) (m : Machine)
    (world : σ) :
    Shows m Ends (call host opcode count m world).1 (m.performCall host world opcode count).1 ∧
      (call host opcode count m world).2 = (m.performCall host world opcode count).2 := by
  have taking := operands_shows m opcode count
  unfold call Machine.performCall
  generalize m.callOperands? opcode count = taken at taking ⊢
  generalize operands opcode count m = given at taking ⊢
  cases taking with
  | error kept => exact ⟨.error kept, rfl⟩
  | @ok given after taken related =>
      obtain ⟨callee, args, rest⟩ := taken
      obtain ⟨rfl, rfl, kept⟩ := related
      cases callee with
      | builtin f =>
          exact ⟨.computing kept fun v => (push_shows kept v).goOn, rfl⟩
      | nothing | bool | int | float | str | range | iter => exact ⟨.error kept, rfl⟩

theorem dispatch_shows {σ : Type} (p : Program) (builtins : BuiltinSet) (host : Host σ)
    (op : Opcode) (m : Machine) (world : σ) :
    Shows m Ends (dispatch p builtins host op m world).1 (m.dispatch p builtins host world op).1 ∧
      (dispatch p builtins host op m world).2 = (m.dispatch p builtins host world op).2 := by
  have performed := perform_shows p builtins op m
  cases op with
  | call count => exact call_shows host _ _ m world
  | _ => exact ⟨performed, rfl⟩

theorem dispatch_locals {σ : Type} {p : Program} {builtins : BuiltinSet} {host : Host σ}
    {op : Opcode} {left : Machine} {fault : Fault} {world after : σ}
    (failed : dispatch p builtins host op m world = (.error fault left, after)) :
    left.locals = m.locals := by
  have shows := (dispatch_shows p builtins host op m world).1
  rw [failed] at shows
  generalize (m.dispatch p builtins host world op).1 = given at shows
  cases shows with
  | error kept => exact kept

end Shows

end Action

namespace Program

/-- Goes on with a run.  `budget` is the number of instructions that may still be begun,
and `steps` the number of those begun already. -/
def runFrom {σ : Type} (p : Program) (builtins : BuiltinSet) (host : Host σ) :
    (budget steps : Nat) → Machine → σ → RunReport σ
  | 0, steps, m, world =>
    match p.code[m.next]? with
    | none => ⟨.ok .nothing, steps, m.locals, world⟩
    | some instruction =>
      let error := ⟨.limit (.steps steps), some (siteOf instruction m.next)⟩
      ⟨.error error, steps + 1, m.locals, world⟩
  | budget + 1, steps, m, world =>
    match p.code[m.next]? with
    | none => ⟨.ok .nothing, steps, m.locals, world⟩
    | some instruction =>
      match Machine.dispatch p builtins host { m with next := m.next + 1 } world instruction.op with
      | (.ok (.goOn m), world) => runFrom p builtins host budget (steps + 1) m world
      | (.ok (.finish v m), world) => ⟨.ok v, steps + 1, m.locals, world⟩
      | (.error fault, world) =>
        ⟨.error ⟨fault, some (siteOf instruction m.next)⟩, steps + 1, m.locals, world⟩

inductive Advances {σ : Type} (instruction : Instruction) (steps : Nat) (m : Machine) :
    Progress σ → Except Fault Machine.Flow × σ → Prop
  | goOn (after : Machine) (behind : σ) :
      Advances instruction steps m (.goOn after behind) (.ok (.goOn after), behind)
  | finish (v : Value) (after : Machine) (behind : σ) :
      Advances instruction steps m (.ended ⟨.ok v, steps + 1, after, behind⟩)
        (.ok (.finish v after), behind)
  | fail {fault : Fault} {left : Machine} {behind : σ} (kept : left.locals = m.locals) :
      Advances instruction steps m
        (.ended ⟨.error ⟨fault, some (siteOf instruction m.next)⟩, steps + 1, left, behind⟩)
        (.error fault, behind)

variable {σ : Type} (p : Program) (builtins : BuiltinSet) (host : Host σ)

theorem advance_advances (instruction : Instruction) (steps : Nat) (m : Machine) (world : σ) :
    Advances instruction steps m (p.advance builtins host instruction steps m world)
      (Machine.dispatch p builtins host { m with next := m.next + 1 } world instruction.op) := by
  obtain ⟨shows, same⟩ := Action.dispatch_shows p builtins host instruction.op
    { m with next := m.next + 1 } world
  unfold advance
  generalize Machine.dispatch p builtins host _ world instruction.op = given at shows same ⊢
  generalize Action.dispatch p builtins host instruction.op _ world = outcome at shows same ⊢
  obtain ⟨flow, behind⟩ := given
  obtain ⟨result, behind'⟩ := outcome
  cases same
  dsimp only at shows ⊢
  cases shows with
  | ok related =>
      cases related with
      | goOn => exact .goOn _ behind
      | finish v => exact .finish v _ behind
  | error kept => exact .fail kept

variable {m : Machine}

theorem proceed_advances {instruction : Instruction}
    (found : p.code[m.next]? = some instruction) (steps : Nat) (world : σ) :
    Advances instruction steps m (p.proceed builtins host steps m world)
      (Machine.dispatch p builtins host { m with next := m.next + 1 } world instruction.op) := by
  unfold proceed
  rw [found]
  exact p.advance_advances builtins host instruction steps m world

variable {p builtins host} {steps : Nat} {world : σ}

theorem proceed_of_end (outside : p.code[m.next]? = none) :
    p.proceed builtins host steps m world = .ended ⟨.ok .nothing, steps, m, world⟩ := by
  rw [proceed, outside]

/-- A run goes on by an instruction that goes on. -/
theorem dispatch_of_goOn {after : Machine} {behind : σ}
    (next : p.proceed builtins host steps m world = .goOn after behind) :
    ∃ instruction, p.code[m.next]? = some instruction ∧
      Machine.dispatch p builtins host { m with next := m.next + 1 } world instruction.op =
        (.ok (.goOn after), behind) := by
  cases found : p.code[m.next]? with
  | none =>
      rw [proceed_of_end found] at next
      cases next
  | some instruction =>
      have advances := p.proceed_advances builtins host found steps world
      rw [next] at advances
      refine ⟨instruction, rfl, ?_⟩
      generalize Machine.dispatch p builtins host _ world instruction.op = given at advances ⊢
      cases advances
      rfl

theorem runOn_of_goOn {after : Machine} {behind : σ}
    (next : p.proceed builtins host steps m world = .goOn after behind) :
    p.runOn builtins host steps m world = p.runOn builtins host (steps + 1) after behind := by
  refine Option.ext fun finish => ?_
  rw [runOn_eq_some_iff, runOn_eq_some_iff]
  constructor
  · intro finishes
    cases finishes with
    | ended last => cases next.symm.trans last
    | goOn next' later =>
        cases next.symm.trans next'
        exact later
  · exact .goOn next

theorem runOn_of_ended {finish : Finish σ}
    (last : p.proceed builtins host steps m world = .ended finish) :
    p.runOn builtins host steps m world = some finish :=
  runOn_eq_some_iff.mpr (.ended last)

end Program

/-- What can be seen of the end of a run. -/
def Finish.report {σ : Type} (finish : Finish σ) : RunReport σ :=
  ⟨finish.result, finish.steps, finish.machine.locals, finish.world⟩

namespace Program

variable {σ : Type} (p : Program) (builtins : BuiltinSet) (host : Host σ)

theorem report_runWithin (budget steps : Nat) (m : Machine) (world : σ) :
    (p.runWithin builtins host budget steps m world).report =
      p.runFrom builtins host budget steps m world := by
  induction budget generalizing steps m world with
  | zero =>
      unfold runWithin runFrom
      cases p.code[m.next]? <;> rfl
  | succ budget ih =>
      unfold runWithin runFrom
      cases found : p.code[m.next]? with
      | none =>
          rw [proceed_of_end found]
          rfl
      | some instruction =>
          have advances := p.proceed_advances builtins host found steps world
          dsimp only
          generalize p.proceed builtins host steps m world = progress at advances ⊢
          generalize Machine.dispatch p builtins host _ world instruction.op = given
            at advances ⊢
          cases advances with
          | goOn after behind => exact ih (steps + 1) after behind
          | finish => rfl
          | fail kept => exact congrArg (RunReport.mk _ _ · _) kept

/-- Goes on with a run that may begin so many instructions, or any number of them. -/
def runFrom? (budget : Option Nat) (steps : Nat) (m : Machine) (world : σ) :
    Option (RunReport σ) :=
  match budget with
  | some budget => some (p.runFrom builtins host budget steps m world)
  | none => (p.runOn builtins host steps m world).map Finish.report

theorem report_execute? (vm : Vm) (world : σ) :
    (vm.execute? p host world).map Finish.report =
      p.runFrom? vm.builtins host (vm.limits.maxSteps.map (· - vm.steps)) vm.steps vm.machine
        world := by
  rcases vm with ⟨⟨_ | limit, depth, trace⟩, builtins, machine, steps⟩
  · rfl
  · exact congrArg some (p.report_runWithin builtins host (limit - steps) steps machine world)

theorem run?_eq (limits : Limits) (world : σ) :
    p.run? limits builtins host world =
      p.runFrom? builtins host limits.maxSteps 0 (.initial limits) world := by
  change ((((Vm.withLimits limits).reset builtins).execute? p host world).map _).map Vm.report = _
  rw [Option.map_map]
  refine (p.report_execute? host ((Vm.withLimits limits).reset builtins) world).trans ?_
  rcases limits with ⟨_ | limit, depth, trace⟩ <;> rfl

def next? (budget : Option Nat) (steps : Nat) (m : Machine) (world : σ)
    (onward : Machine → σ → Option (RunReport σ)) : Option (RunReport σ) :=
  match p.code[m.next]? with
  | none => some ⟨.ok .nothing, steps, m.locals, world⟩
  | some instruction =>
    if budget = some 0 then
      some ⟨.error ⟨.limit (.steps steps), some (siteOf instruction m.next)⟩, steps + 1, m.locals,
        world⟩
    else
      match Machine.dispatch p builtins host { m with next := m.next + 1 } world instruction.op with
      | (.ok (.goOn after), behind) => onward after behind
      | (.ok (.finish v after), behind) => some ⟨.ok v, steps + 1, after.locals, behind⟩
      | (.error fault, behind) =>
        some ⟨.error ⟨fault, some (siteOf instruction m.next)⟩, steps + 1, m.locals, behind⟩

theorem next?_of_ended {steps : Nat} {m : Machine} {world : σ} {finish : Finish σ}
    (last : p.proceed builtins host steps m world = .ended finish)
    (onward : Machine → σ → Option (RunReport σ)) :
    p.next? builtins host none steps m world onward = some finish.report := by
  unfold next?
  cases found : p.code[m.next]? with
  | none =>
      cases (proceed_of_end found).symm.trans last
      rfl
  | some instruction =>
      have advances := p.proceed_advances builtins host found steps world
      rw [last] at advances
      dsimp only
      rw [if_neg (Option.some_ne_none 0).symm]
      generalize Machine.dispatch p builtins host _ world instruction.op = given at advances ⊢
      cases advances with
      | finish => rfl
      | fail kept => exact congrArg (some <| RunReport.mk _ _ · _) kept.symm

theorem runFrom?_eq (budget : Option Nat) (steps : Nat) (m : Machine) (world : σ) :
    p.runFrom? builtins host budget steps m world =
      p.next? builtins host budget steps m world
        (p.runFrom? builtins host (budget.map (· - 1)) (steps + 1)) := by
  cases budget with
  | none =>
      change (p.runOn builtins host steps m world).map Finish.report = _
      cases next : p.proceed builtins host steps m world with
      | ended finish =>
          rw [runOn_of_ended next, p.next?_of_ended builtins host next, Option.map_some]
      | goOn after behind =>
          obtain ⟨instruction, found, stepped⟩ := dispatch_of_goOn next
          rw [runOn_of_goOn next, next?, found]
          dsimp only
          rw [if_neg (by simp), stepped]
          rfl
  | some budget =>
      change some (p.runFrom builtins host budget steps m world) = _
      unfold next?
      cases budget with
      | zero =>
          rw [runFrom]
          cases p.code[m.next]? <;> rfl
      | succ budget =>
          rw [runFrom]
          cases p.code[m.next]? with
          | none => rfl
          | some instruction =>
              dsimp only
              rw [if_neg (by simp)]
              rcases Machine.dispatch p builtins host { m with next := m.next + 1 } world
                instruction.op with ⟨_ | ⟨_ | _⟩, behind⟩ <;> rfl

end Program

end LessonScript
