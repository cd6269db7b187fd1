import LessonScript.Proofs.Effects

/-!
The steps of a run.

`Program.stateAfter` is the machine and the state of the host after so many instructions.  Every
run that ends goes through such states up to a last one, where it ends in one of four ways
(`Program.runFrom?_ends`); what it did before can be left out (`Program.runFrom?_of_stateAfter`).
Without a step limit a run ends exactly if it ends within some limit
(`Program.runFrom?_none_eq_some_iff`), so what holds of the runs within every limit holds of all
runs (`Program.run_induction`, `Program.run_related`).
The one instruction that may fail in its host is a call (`Machine.performCall_failed`).
-/

namespace LessonScript.Machine

variable {σ : Type}

theorem callOperands?_cases (m : Machine) (opcode : String) (count : Nat) :
    m.callOperands? opcode count = .error (.underflow opcode) ∨
      ∃ callee args rest, m.callOperands? opcode count = .ok (callee, args, rest) ∧
        0 < rest.stack.room := by
  unfold callOperands? Stack.popMany?
  split
  · cases below : m.stack.values.drop count with
    | nil => exact .inl rfl
    | cons callee values =>
        exact .inr ⟨callee, _, { m with stack := ⟨values, m.stack.room + count + 1⟩ }, rfl,
          Nat.succ_pos _⟩
  · exact .inl rfl

/-- How a call fails: without its operands, on a value that is no builtin, or in the builtin. -/
inductive CallFailed (host : Host σ) (world : σ) (opcode : String) : Fault → σ → Prop
  | missing : CallFailed host world opcode (.underflow opcode) world
  | notCallable (v : Value) : CallFailed host world opcode (.call (.notCallable v.kind)) world
  | builtin {f : Builtin} {args : List Value} {fault : Fault} {behind : σ}
      (failed : f.call host world args = (.error fault, behind)) :
      CallFailed host world opcode fault behind

theorem performCall_failed {host : Host σ} {m : Machine} {world behind : σ} {opcode : String}
    {count : Nat} {fault : Fault}
    (failed : m.performCall host world opcode count = (.error fault, behind)) :
    CallFailed host world opcode fault behind := by
  unfold performCall at failed
  rcases m.callOperands?_cases opcode count with missing | ⟨callee, args, rest, taken, more⟩
  · rw [missing] at failed
    cases failed
    exact .missing
  · rw [taken] at failed
    cases callee with
    | builtin f =>
        -- There is room for the result, so only the builtin itself can fail.
        obtain ⟨room, more⟩ := Nat.exists_eq_add_of_le' more
        dsimp only at failed
        cases called : f.call host world args with
        | mk result after =>
            rw [called] at failed
            cases result with
            | error inner =>
                cases failed
                exact .builtin called
            | ok v =>
                simp only [push?, Stack.push?, more] at failed
                cases failed
    | nothing | bool | int | float | str | range | iter =>
        cases failed
        exact .notCallable _

end LessonScript.Machine

namespace LessonScript.Program

variable {σ : Type} (p : Program) (builtins : BuiltinSet) (host : Host σ)

/-- The machine and the state of the host after so many instructions, if the run comes so far. -/
def stateAfter : Nat → Machine → σ → Option (Machine × σ)
  | 0, m, world => some (m, world)
  | n + 1, m, world =>
    match p.code[m.next]? with
    | none => none
    | some instruction =>
      match Machine.dispatch p builtins host { m with next := m.next + 1 } world instruction.op with
      | (.ok (.goOn after), behind) => stateAfter n after behind
      | _ => none

/-- How a run ends that may still begin `budget` instructions, or any number of them, and has begun
`steps`. -/
inductive Ends (budget : Option Nat) (steps : Nat) (m : Machine) (world : σ) : RunReport σ → Prop
  | atEnd (outside : p.code[m.next]? = none) :
      Ends budget steps m world ⟨.ok .nothing, steps, m.locals, world⟩
  | exhausted {instruction : Instruction} (found : p.code[m.next]? = some instruction)
      (spent : budget = some 0) :
      Ends budget steps m world
        ⟨.error ⟨.limit (.steps steps), some (siteOf instruction m.next)⟩, steps + 1, m.locals,
          world⟩
  | returned {instruction : Instruction} {v : Value} {after : Machine} {behind : σ}
      (found : p.code[m.next]? = some instruction) (left : budget ≠ some 0)
      (finished : Machine.dispatch p builtins host { m with next := m.next + 1 } world
        instruction.op = (.ok (.finish v after), behind)) :
      Ends budget steps m world ⟨.ok v, steps + 1, after.locals, behind⟩
  | failed {instruction : Instruction} {fault : Fault} {behind : σ}
      (found : p.code[m.next]? = some instruction) (left : budget ≠ some 0)
      (refused : Machine.dispatch p builtins host { m with next := m.next + 1 } world
        instruction.op = (.error fault, behind)) :
      Ends budget steps m world
        ⟨.error ⟨fault, some (siteOf instruction m.next)⟩, steps + 1, m.locals, behind⟩

variable {p builtins host}

theorem stateAfter_of_step {m after : Machine} {world behind : σ} {instruction : Instruction}
    (found : p.code[m.next]? = some instruction)
    (stepped : Machine.dispatch p builtins host { m with next := m.next + 1 } world
      instruction.op = (.ok (.goOn after), behind)) (n : Nat) :
    p.stateAfter builtins host (n + 1) m world = p.stateAfter builtins host n after behind := by
  rw [stateAfter, found]
  dsimp only
  rw [stepped]

theorem exists_of_stateAfter_succ {n : Nat} {m last : Machine} {world before : σ}
    (reached : p.stateAfter builtins host (n + 1) m world = some (last, before)) :
    ∃ instruction after behind, p.code[m.next]? = some instruction ∧
      Machine.dispatch p builtins host { m with next := m.next + 1 } world instruction.op =
        (.ok (.goOn after), behind) ∧
      p.stateAfter builtins host n after behind = some (last, before) := by
  unfold stateAfter at reached
  split at reached
  · cases reached
  · rename_i instruction found
    split at reached
    · rename_i after behind stepped
      exact ⟨instruction, after, behind, found, stepped, reached⟩
    · cases reached

theorem stateAfter_add {n : Nat} {m last : Machine} {world before : σ}
    (reached : p.stateAfter builtins host n m world = some (last, before)) (k : Nat) :
    p.stateAfter builtins host (n + k) m world = p.stateAfter builtins host k last before := by
  induction n generalizing m world with
  | zero =>
      cases reached
      rw [Nat.zero_add]
  | succ n ih =>
      obtain ⟨instruction, after, behind, found, stepped, rest⟩ :=
        exists_of_stateAfter_succ reached
      rw [Nat.succ_add, stateAfter_of_step found stepped, ih rest]

theorem next?_of_step {budget : Option Nat} {steps : Nat} {m after : Machine} {world behind : σ}
    {instruction : Instruction} (found : p.code[m.next]? = some instruction)
    (left : budget ≠ some 0)
    (stepped : Machine.dispatch p builtins host { m with next := m.next + 1 } world
      instruction.op = (.ok (.goOn after), behind)) (onward : Machine → σ → Option (RunReport σ)) :
    p.next? builtins host budget steps m world onward = onward after behind := by
  rw [next?, found]
  dsimp only
  rw [if_neg left, stepped]

theorem next?_of_ends {budget : Option Nat} {steps : Nat} {m : Machine} {world : σ}
    {report : RunReport σ} (ends : p.Ends builtins host budget steps m world report)
    (onward : Machine → σ → Option (RunReport σ)) :
    p.next? builtins host budget steps m world onward = some report := by
  unfold next?
  cases ends with
  | atEnd outside => rw [outside]
  | exhausted found spent =>
      rw [found]
      exact if_pos spent
  | returned found left finished =>
      rw [found]
      dsimp only
      rw [if_neg left, finished]
  | failed found left refused =>
      rw [found]
      dsimp only
      rw [if_neg left, refused]

theorem runFrom?_of_ends {budget : Option Nat} {steps : Nat} {m : Machine} {world : σ}
    {report : RunReport σ} (ends : p.Ends builtins host budget steps m world report) :
    p.runFrom? builtins host budget steps m world = some report := by
  rw [runFrom?_eq, next?_of_ends ends]

theorem runFrom?_of_stateAfter {n : Nat} {budget : Option Nat}
    (within : ∀ limit, budget = some limit → n ≤ limit) (steps : Nat) {m last : Machine}
    {world before : σ} (reached : p.stateAfter builtins host n m world = some (last, before)) :
    p.runFrom? builtins host budget steps m world =
      p.runFrom? builtins host (budget.map (· - n)) (steps + n) last before := by
  induction n generalizing budget steps m world with
  | zero =>
      cases reached
      cases budget <;> rfl
  | succ n ih =>
      obtain ⟨instruction, after, behind, found, stepped, rest⟩ :=
        exists_of_stateAfter_succ reached
      have left : budget ≠ some 0 := by
        rintro rfl
        exact absurd (within 0 rfl) (Nat.not_succ_le_zero n)
      have within' : ∀ limit, budget.map (· - 1) = some limit → n ≤ limit := by
        intro limit same
        obtain ⟨limit, given, rfl⟩ := Option.map_eq_some_iff.mp same
        exact Nat.le_sub_one_of_lt (within limit given)
      rw [runFrom?_eq, next?_of_step found left stepped, ih within' (steps + 1) rest,
        Option.map_map, show steps + 1 + n = steps + (n + 1) by omega]
      congr 2
      funext limit
      exact (Nat.sub_add_eq limit 1 n).symm.trans (by rw [Nat.add_comm])

/-- A run that has as many steps left as it takes to an instruction stops in front of it. -/
theorem runFrom?_of_spent {n : Nat} {m last : Machine} {world before : σ}
    (reached : p.stateAfter builtins host n m world = some (last, before))
    {instruction : Instruction} (found : p.code[last.next]? = some instruction) (steps : Nat) :
    p.runFrom? builtins host (some n) steps m world =
      some ⟨.error ⟨.limit (.steps (steps + n)), some (siteOf instruction last.next)⟩,
        steps + n + 1, last.locals, before⟩ := by
  rw [runFrom?_of_stateAfter ?_ steps reached]
  · exact runFrom?_of_ends (.exhausted found (congrArg some (Nat.sub_self n)))
  · rintro _ ⟨⟩
    exact Nat.le_refl n

def EndsWithin (p : Program) (builtins : BuiltinSet) (host : Host σ) (budget : Option Nat)
    (steps : Nat) (m : Machine) (world : σ) (report : RunReport σ) : Prop :=
  ∃ n last before, (∀ limit, budget = some limit → n ≤ limit) ∧
    p.stateAfter builtins host n m world = some (last, before) ∧
    p.Ends builtins host (budget.map (· - n)) (steps + n) last before report

theorem EndsWithin.of_step {budget : Option Nat} {steps : Nat} {m after : Machine}
    {world behind : σ} {instruction : Instruction} {report : RunReport σ}
    (found : p.code[m.next]? = some instruction) (left : budget ≠ some 0)
    (stepped : Machine.dispatch p builtins host { m with next := m.next + 1 } world
      instruction.op = (.ok (.goOn after), behind))
    (rest : p.EndsWithin builtins host (budget.map (· - 1)) (steps + 1) after behind report) :
    p.EndsWithin builtins host budget steps m world report := by
  obtain ⟨n, last, before, within, reached, ends⟩ := rest
  refine ⟨n + 1, last, before, ?_, ?_, ?_⟩
  · rintro limit rfl
    have less := within (limit - 1) rfl
    have more : limit ≠ 0 := fun none => left (congrArg some none)
    omega
  · rw [stateAfter_of_step found stepped, reached]
  · rw [show steps + (n + 1) = steps + 1 + n by omega]
    cases budget with
    | none => exact ends
    | some limit => rwa [Option.map_some, Option.map_some, Nat.sub_sub, Nat.add_comm] at ends

theorem endsWithin_of_next? {budget : Option Nat} {steps : Nat} {m : Machine} {world : σ}
    {report : RunReport σ} {onward : Machine → σ → Option (RunReport σ)}
    (ended : p.next? builtins host budget steps m world onward = some report)
    (later : ∀ after behind, budget ≠ some 0 → onward after behind = some report →
      p.EndsWithin builtins host (budget.map (· - 1)) (steps + 1) after behind report) :
    p.EndsWithin builtins host budget steps m world report := by
  have here (ends : p.Ends builtins host budget steps m world report) :
      p.EndsWithin builtins host budget steps m world report := by
    refine ⟨0, m, world, fun _ _ => Nat.zero_le _, rfl, ?_⟩
    cases budget <;> exact ends
  unfold next? at ended
  cases found : p.code[m.next]? with
  | none =>
      rw [found] at ended
      cases ended
      exact here (.atEnd found)
  | some instruction =>
      rw [found] at ended
      dsimp only at ended
      split at ended
      · rename_i spent
        cases ended
        exact here (.exhausted found spent)
      · rename_i left
        split at ended
        · rename_i after behind stepped
          exact .of_step found left stepped (later after behind left ended)
        · rename_i v after behind finished
          cases ended
          exact here (.returned found left finished)
        · rename_i fault behind refused
          cases ended
          exact here (.failed found left refused)

theorem runFrom?_ends {budget : Option Nat} {steps : Nat} {m : Machine} {world : σ}
    {report : RunReport σ} (ended : p.runFrom? builtins host budget steps m world = some report) :
    p.EndsWithin builtins host budget steps m world report := by
  cases budget with
  | some budget =>
      induction budget generalizing steps m world with
      | zero =>
          rw [runFrom?_eq] at ended
          exact endsWithin_of_next? ended fun _ _ left => absurd rfl left
      | succ budget ih =>
          rw [runFrom?_eq] at ended
          exact endsWithin_of_next? ended fun _ _ _ => ih
  | none =>
      obtain ⟨finish, finished, rfl⟩ := Option.map_eq_some_iff.mp ended
      have finishes := runOn_eq_some_iff.mp finished
      clear ended finished
      induction finishes with
      | ended last =>
          exact endsWithin_of_next? (p.next?_of_ended builtins host last fun _ _ => none)
            fun _ _ _ later => by cases later
      | goOn next _ ih =>
          obtain ⟨instruction, found, stepped⟩ := dispatch_of_goOn next
          exact .of_step found (Option.some_ne_none 0).symm stepped ih

theorem Ends.steps_le {budget : Option Nat} {steps : Nat} {m : Machine} {world : σ}
    {report : RunReport σ} (ends : p.Ends builtins host budget steps m world report) :
    report.steps ≤ steps + 1 := by
  cases ends with
  | atEnd => exact Nat.le_succ _
  | exhausted | returned | failed => exact Nat.le_refl _

theorem Ends.of_unspent {budget budget' : Option Nat} {steps : Nat} {m : Machine} {world : σ}
    {report : RunReport σ} (ends : p.Ends builtins host budget steps m world report)
    (unspent : budget = some 0 → report.steps ≤ steps) (left : budget' ≠ some 0) :
    p.Ends builtins host budget' steps m world report := by
  cases ends with
  | atEnd outside => exact .atEnd outside
  | exhausted _ spent => exact absurd (unspent spent) (Nat.not_succ_le_self steps)
  | returned found _ finished => exact .returned found left finished
  | failed found _ refused => exact .failed found left refused

theorem Ends.stateAfter_succ {budget : Option Nat} {steps : Nat} {m : Machine} {world : σ}
    {report : RunReport σ} (ends : p.Ends builtins host budget steps m world report)
    (left : budget ≠ some 0) (n : Nat) : p.stateAfter builtins host (n + 1) m world = none := by
  unfold stateAfter
  cases ends with
  | atEnd outside => rw [outside]
  | exhausted _ spent => exact absurd spent left
  | returned found _ finished =>
      rw [found]
      dsimp only
      rw [finished]
  | failed found _ refused =>
      rw [found]
      dsimp only
      rw [refused]

/-- A run without a step limit goes on forever if it comes to a state after every number of
instructions. -/
theorem runFrom?_none_eq_none_iff {steps : Nat} {m : Machine} {world : σ} :
    p.runFrom? builtins host none steps m world = none ↔
      ∀ n, ∃ last before, p.stateAfter builtins host n m world = some (last, before) := by
  constructor
  · intro endless n
    induction n generalizing steps m world with
    | zero => exact ⟨m, world, rfl⟩
    | succ n ih =>
        rw [runFrom?_eq] at endless
        unfold next? at endless
        split at endless
        · cases endless
        · rename_i instruction found
          rw [if_neg (Option.some_ne_none 0).symm] at endless
          split at endless
          · rename_i after behind stepped
            rw [stateAfter_of_step found stepped]
            exact ih endless
          · cases endless
          · cases endless
  · intro always
    cases ended : p.runFrom? builtins host none steps m world with
    | none => rfl
    | some report =>
        obtain ⟨n, last, before, _, reached, ends⟩ := runFrom?_ends ended
        obtain ⟨after, behind, further⟩ := always (n + 1)
        rw [stateAfter_add reached, ends.stateAfter_succ (Option.some_ne_none 0).symm 0] at further
        cases further

/-- A run without a step limit ends exactly if it does not exceed some limit. -/
theorem runFrom?_none_eq_some_iff {steps : Nat} {m : Machine} {world : σ} {report : RunReport σ} :
    p.runFrom? builtins host none steps m world = some report ↔
      ∃ budget, p.runFrom builtins host budget steps m world = report ∧
        report.steps ≤ steps + budget := by
  constructor
  · intro ended
    obtain ⟨n, last, before, _, reached, ends⟩ := runFrom?_ends ended
    refine ⟨n + 1, Option.some.inj ?_, ends.steps_le⟩
    change p.runFrom? builtins host (some (n + 1)) steps m world = _
    rw [runFrom?_of_stateAfter (by rintro _ ⟨⟩; exact Nat.le_succ n) steps reached]
    exact runFrom?_of_ends (ends.of_unspent nofun (by simp))
  · rintro ⟨budget, ended, within⟩
    have ended : p.runFrom? builtins host (some budget) steps m world = some report :=
      congrArg Option.some ended
    obtain ⟨n, last, before, some, reached, ends⟩ := runFrom?_ends ended
    rw [runFrom?_of_stateAfter (by simp) steps reached]
    refine runFrom?_of_ends (ends.of_unspent (fun spent => ?_) (by simp))
    have whole : budget - n = 0 := Option.some.inj spent
    have less := some budget rfl
    omega

theorem run_eq (p : Program) (limits : Limits) (builtins : BuiltinSet) (host : Host σ)
    (world : σ) :
    p.run limits builtins host world =
      (p.run? limits builtins host world).getD ⟨.ok .nothing, 0, [], world⟩ := by
  unfold run run? Vm.run
  cases (Vm.withLimits limits).run? p builtins host world <;> rfl

theorem run_of_run? {limits : Limits} {world : σ} {report : RunReport σ}
    (ended : p.run? limits builtins host world = some report) :
    p.run limits builtins host world = report := by
  rw [run_eq, ended]
  rfl

theorem run?_of_maxSteps {limits : Limits} {budget : Nat} (limited : limits.maxSteps = some budget)
    (world : σ) :
    p.run? limits builtins host world =
      some (p.runFrom builtins host budget 0 (.initial limits) world) := by
  rw [run?_eq, limited]
  rfl

theorem run_endsWithin (p : Program) (limits : Limits) (builtins : BuiltinSet) (host : Host σ)
    (world : σ) :
    p.EndsWithin builtins host limits.maxSteps 0 (.initial limits) world
        (p.run limits builtins host world) ∨
      p.run limits builtins host world = ⟨.ok .nothing, 0, [], world⟩ := by
  rw [run_eq]
  cases ended : p.run? limits builtins host world with
  | none => exact .inr rfl
  | some report =>
      rw [run?_eq] at ended
      exact .inl (runFrom?_ends ended)

theorem run_endsWithin_of_error {limits : Limits} {world : σ} {error : Error}
    (failed : (p.run limits builtins host world).result = .error error) :
    p.EndsWithin builtins host limits.maxSteps 0 (.initial limits) world
      (p.run limits builtins host world) := by
  rcases p.run_endsWithin limits builtins host world with ends | forever
  · exact ends
  · rw [forever] at failed
    cases failed

/-- What holds of the run within every step limit holds of a run, unless it goes on forever. -/
theorem run_induction {limits : Limits} {world : σ} {P : RunReport σ → Prop}
    (each : ∀ budget, P (p.runFrom builtins host budget 0 (.initial limits) world))
    (forever : P ⟨.ok .nothing, 0, [], world⟩) : P (p.run limits builtins host world) := by
  rw [run_eq]
  cases limited : limits.maxSteps with
  | some budget =>
      rw [run?_of_maxSteps limited]
      exact each budget
  | none =>
      cases ended : p.run? limits builtins host world with
      | none => exact forever
      | some report =>
          rw [run?_eq, limited] at ended
          obtain ⟨budget, same, _⟩ := runFrom?_none_eq_some_iff.mp ended
          exact same ▸ each budget

section Related

variable {τ : Type} {q : Program} {builtins' : BuiltinSet} {host' : Host τ} {limits : Limits}
  {world : σ} {world' : τ} {R : RunReport σ → RunReport τ → Prop}

theorem run?_related (steps : ∀ report report', R report report' → report'.steps = report.steps)
    (each : ∀ budget, R (p.runFrom builtins host budget 0 (.initial limits) world)
      (q.runFrom builtins' host' budget 0 (.initial limits) world')) :
    Option.Rel R (p.run? limits builtins host world) (q.run? limits builtins' host' world') := by
  cases limited : limits.maxSteps with
  | some budget =>
      rw [run?_of_maxSteps limited, run?_of_maxSteps limited]
      exact .some (each budget)
  | none =>
      rw [run?_eq, run?_eq, limited]
      cases ended : p.runFrom? builtins host none 0 (.initial limits) world with
      | some report =>
          obtain ⟨budget, rfl, within⟩ := runFrom?_none_eq_some_iff.mp ended
          rw [runFrom?_none_eq_some_iff.mpr ⟨budget, rfl, steps _ _ (each budget) ▸ within⟩]
          exact .some (each budget)
      | none =>
          cases ended' : q.runFrom? builtins' host' none 0 (.initial limits) world' with
          | none => exact .none
          | some report =>
              obtain ⟨budget, rfl, within⟩ := runFrom?_none_eq_some_iff.mp ended'
              rw [steps _ _ (each budget)] at within
              rw [runFrom?_none_eq_some_iff.mpr ⟨budget, rfl, within⟩] at ended
              cases ended

theorem run_related (steps : ∀ report report', R report report' → report'.steps = report.steps)
    (each : ∀ budget, R (p.runFrom builtins host budget 0 (.initial limits) world)
      (q.runFrom builtins' host' budget 0 (.initial limits) world'))
    (forever : R ⟨.ok .nothing, 0, [], world⟩ ⟨.ok .nothing, 0, [], world'⟩) :
    R (p.run limits builtins host world) (q.run limits builtins' host' world') := by
  have related := run?_related steps each
  rw [run_eq, run_eq]
  generalize p.run? limits builtins host world = ended at related ⊢
  generalize q.run? limits builtins' host' world' = ended' at related ⊢
  cases related with
  | some related => exact related
  | none => exact forever

end Related

end LessonScript.Program
