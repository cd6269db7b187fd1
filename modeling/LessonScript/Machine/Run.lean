import LessonScript.Machine.Action

/-!
Running programs.

A run goes through the instructions of a program one at a time.  It ends with a value, at the
end of the program, or at the first fault; the fault is reported with the line, the offset and
the mnemonic of its instruction.  Every instruction that is begun counts as a step, the failing
one included.

With a step limit every run ends (`Program.runWithin`).  Without one a run may go on forever
(`Program.runOn`).  It is a loop whose state carries the proof that what it finds is the end of the
run, so that it finds just the ends there are (`Program.runOn_eq_some_iff`).  There is no report of
a run that goes on forever, and `Vm.run` and `Program.run`, which return something for every run,
say nothing about it.

A machine is used for one run after the other.  Each run starts by resetting it (`Vm.reset`), and
what the run leaves in it can be inspected afterwards.
-/

namespace LessonScript

structure Finish (σ : Type) where
  result : Except Error Value
  /-- The number of instructions begun. -/
  steps : Nat
  machine : Machine
  world : σ

/-- What an instruction leads to: a machine to go on with, or the end of the run. -/
inductive Progress (σ : Type) where
  | goOn (m : Machine) (world : σ)
  | ended (finish : Finish σ)

namespace Program

variable {σ : Type}

def siteOf (instruction : Instruction) (offset : Nat) : Site :=
  ⟨some instruction.line, some offset, some instruction.op.mnemonic⟩

def advance (p : Program) (builtins : BuiltinSet) (host : Host σ) (instruction : Instruction)
    (steps : Nat) (m : Machine) (world : σ) : Progress σ :=
  match Action.dispatch p builtins host instruction.op { m with next := m.next + 1 } world with
  | (.ok none m, world) => .goOn m world
  | (.ok (some v) m, world) => .ended ⟨.ok v, steps + 1, m, world⟩
  | (.error fault left, world) =>
    .ended ⟨.error ⟨fault, some (siteOf instruction m.next)⟩, steps + 1, left, world⟩

/-- Begins the next instruction, or ends the run behind the last one. -/
def proceed (p : Program) (builtins : BuiltinSet) (host : Host σ) (steps : Nat) (m : Machine)
    (world : σ) : Progress σ :=
  match p.code[m.next]? with
  | none => .ended ⟨.ok .nothing, steps, m, world⟩
  | some instruction => p.advance builtins host instruction steps m world

/-- Goes on with a run.  `budget` is the number of instructions that may still be begun,
and `steps` the number of those begun already. -/
def runWithin (p : Program) (builtins : BuiltinSet) (host : Host σ) :
    (budget steps : Nat) → Machine → σ → Finish σ
  | 0, steps, m, world =>
    match p.code[m.next]? with
    | none => ⟨.ok .nothing, steps, m, world⟩
    | some instruction =>
      let error := ⟨.limit (.steps steps), some (siteOf instruction m.next)⟩
      ⟨.error error, steps + 1, { m with next := m.next + 1 }, world⟩
  | budget + 1, steps, m, world =>
    match p.proceed builtins host steps m world with
    | .goOn m world => runWithin p builtins host budget (steps + 1) m world
    | .ended finish => finish

/-- The run, which has begun `steps` instructions, comes to this end. -/
inductive Finishes (p : Program) (builtins : BuiltinSet) (host : Host σ) :
    Nat → Machine → σ → Finish σ → Prop
  | ended {steps : Nat} {m : Machine} {world : σ} {finish : Finish σ}
      (last : p.proceed builtins host steps m world = .ended finish) :
      Finishes p builtins host steps m world finish
  | goOn {steps : Nat} {m after : Machine} {world behind : σ} {finish : Finish σ}
      (next : p.proceed builtins host steps m world = .goOn after behind)
      (later : Finishes p builtins host (steps + 1) after behind finish) :
      Finishes p builtins host steps m world finish

section Midway

variable {p : Program} {builtins : BuiltinSet} {host : Host σ} {Ending : Finish σ → Prop}

/-- A point on the way of a run, with what is known of the ends it leads to. -/
structure Midway (p : Program) (builtins : BuiltinSet) (host : Host σ)
    (Ending : Finish σ → Prop) where
  steps : Nat
  machine : Machine
  world : σ
  leads : ∀ finish, p.Finishes builtins host steps machine world finish → Ending finish

/-- What a run comes to, if it ends. -/
def Conclusion (Ending : Finish σ → Prop) : Type :=
  { result : Option (Finish σ) // ∀ finish ∈ result, Ending finish }

instance : Nonempty (Conclusion Ending) :=
  ⟨⟨none, fun _ member => absurd member (Option.not_mem_none _)⟩⟩

namespace Midway

def round (s : p.Midway builtins host Ending) : p.Midway builtins host Ending ⊕ Conclusion Ending :=
  match next : p.proceed builtins host s.steps s.machine s.world with
  | .goOn after behind =>
    .inl ⟨s.steps + 1, after, behind, fun finish later => s.leads finish (.goOn next later)⟩
  | .ended finish =>
    .inr ⟨some finish, fun _ same => Option.some.inj same ▸ s.leads finish (.ended next)⟩

/-- Goes on to the end of the run. -/
def conclude (s : p.Midway builtins host Ending) : Conclusion Ending :=
  Id.run (repeatM (fun s => pure (round s)) s)

theorem conclude_eq (s : p.Midway builtins host Ending) :
    s.conclude = s.round.elim conclude id := by
  unfold conclude
  rw [repeatM_eq_of_monadTail, repeatM.body, pure_bind]
  cases s.round <;> rfl

end Midway

theorem Finishes.conclude {steps : Nat} {m : Machine} {world : σ} {finish : Finish σ}
    (finishes : p.Finishes builtins host steps m world finish)
    (leads : ∀ finish, p.Finishes builtins host steps m world finish → Ending finish) :
    (Midway.mk steps m world leads).conclude.val = some finish := by
  induction finishes with
  | ended last =>
      rw [Midway.conclude_eq, Midway.round]
      split
      · rename_i next
        cases last.symm.trans next
      · rename_i next
        cases last.symm.trans next
        rfl
  | goOn going _ ih =>
      rw [Midway.conclude_eq, Midway.round]
      split
      · rename_i next
        cases going.symm.trans next
        exact ih _
      · rename_i next
        cases going.symm.trans next

end Midway

/-- Goes on with a run that may begin any number of instructions. -/
def runOn (p : Program) (builtins : BuiltinSet) (host : Host σ) (steps : Nat) (m : Machine)
    (world : σ) : Option (Finish σ) :=
  let start : p.Midway builtins host (p.Finishes builtins host steps m world) :=
    ⟨steps, m, world, fun _ => id⟩
  start.conclude.val

theorem runOn_eq_some_iff {p : Program} {builtins : BuiltinSet} {host : Host σ} {steps : Nat}
    {m : Machine} {world : σ} {finish : Finish σ} :
    p.runOn builtins host steps m world = some finish ↔
      p.Finishes builtins host steps m world finish :=
  ⟨(Midway.conclude _).property finish, fun finishes => finishes.conclude _⟩

end Program

/-- A machine with its settings, and what its last run left in it. -/
structure Vm where
  limits : Limits
  builtins : BuiltinSet
  machine : Machine
  /-- The number of instructions that the last run began. -/
  steps : Nat

namespace Vm

variable {σ : Type}

def withLimits (limits : Limits) : Vm :=
  ⟨limits, .standard, .initial limits, 0⟩

def locals (vm : Vm) : Locals :=
  vm.machine.locals

/-- Makes the machine ready for a run with the given builtins. -/
def reset (vm : Vm) (builtins : BuiltinSet) : Vm :=
  { vm with
    machine := { stack := .withLimit vm.limits.maxStackDepth, locals := [], next := 0 }
    builtins := builtins
    steps := 0 }

/-- Goes on with the program from what is in the machine, if that comes to an end. -/
def execute? (vm : Vm) (p : Program) (host : Host σ) (world : σ) : Option (Finish σ) :=
  match vm.limits.maxSteps with
  | some limit =>
    some (p.runWithin vm.builtins host (limit - vm.steps) vm.steps vm.machine world)
  | none => p.runOn vm.builtins host vm.steps vm.machine world

/-- The result, the machine and the state of the host behind a run. -/
def behind (vm : Vm) (finish : Finish σ) : Except Error Value × Vm × σ :=
  (finish.result, { vm with machine := finish.machine, steps := finish.steps }, finish.world)

def run? (vm : Vm) (p : Program) (builtins : BuiltinSet) (host : Host σ) (world : σ) :
    Option (Except Error Value × Vm × σ) :=
  ((vm.reset builtins).execute? p host world).map (vm.reset builtins).behind

def run (vm : Vm) (p : Program) (builtins : BuiltinSet) (host : Host σ) (world : σ) :
    Except Error Value × Vm × σ :=
  (vm.run? p builtins host world).getD (.ok .nothing, vm.reset builtins, world)

end Vm

structure RunReport (σ : Type) where
  result : Except Error Value
  /-- The number of instructions begun. -/
  steps : Nat
  locals : Locals
  world : σ

def Vm.report {σ : Type} (outcome : Except Error Value × Vm × σ) : RunReport σ :=
  ⟨outcome.1, outcome.2.1.steps, outcome.2.1.locals, outcome.2.2⟩

namespace Program

variable {σ : Type}

def run? (p : Program) (limits : Limits) (builtins : BuiltinSet) (host : Host σ) (world : σ) :
    Option (RunReport σ) :=
  ((Vm.withLimits limits).run? p builtins host world).map Vm.report

def run (p : Program) (limits : Limits) (builtins : BuiltinSet) (host : Host σ) (world : σ) :
    RunReport σ :=
  Vm.report ((Vm.withLimits limits).run p builtins host world)

end Program

end LessonScript
