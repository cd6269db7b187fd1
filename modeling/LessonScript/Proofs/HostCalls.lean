import LessonScript.Proofs.RunSteps

/-!
The calls that a run makes of its host.

`Host.traced` behaves like a host and keeps the calls made of it, in their order.  A run with the
traced host is the run with the host itself, call by call (`Program.run_traced`), so what its
trace says holds of every run.
-/

namespace LessonScript

/-- A call that a run makes of its host. -/
inductive HostCall where
  | print (message : String)
  | input (prompt : String)
  deriving DecidableEq

namespace HostCall

/-- The builtin through which a run makes the call. -/
def builtin : HostCall → Builtin
  | print _ => .print
  | input _ => .input

end HostCall

variable {σ : Type}

/-- The host, with a record of the calls made of it, the first one first. -/
def Host.traced (host : Host σ) : Host (σ × List HostCall) where
  print state message := (host.print state.1 message, state.2 ++ [.print message])
  input state prompt :=
    let (answer, world) := host.input state.1 prompt
    (answer, (world, state.2 ++ [.input prompt]))

/-- The report without the record of the calls. -/
def RunReport.withoutCalls (report : RunReport (σ × List HostCall)) : RunReport σ :=
  { report with world := report.world.1 }

section Traced

variable (host : Host σ) (state : σ × List HostCall)

theorem Builtin.call_traced (f : Builtin) (args : List Value) :
    ∃ made, f.call host.traced state args =
        ((f.call host state.1 args).1, ((f.call host state.1 args).2, state.2 ++ made)) ∧
      ∀ c ∈ made, c.builtin = f := by
  unfold Builtin.call
  split
  · cases f with
    | print => exact ⟨[.print (messageOf args)], rfl, by simp [HostCall.builtin]⟩
    | input => exact ⟨[.input (promptOf args)], rfl, by simp [HostCall.builtin]⟩
    | abs | min | max | len | str | int | float | round | range =>
        exact ⟨[], by simp, by simp⟩
  · exact ⟨[], by simp, by simp⟩

theorem Machine.dispatch_traced (p : Program) (builtins : BuiltinSet) (m : Machine) (op : Opcode) :
    ∃ made, dispatch p builtins host.traced m state op =
        ((dispatch p builtins host m state.1 op).1,
          ((dispatch p builtins host m state.1 op).2, state.2 ++ made)) ∧
      ∀ c ∈ made, ∃ count args rest, op = .call count ∧
        m.callOperands? op.name count = .ok (.builtin c.builtin, args, rest) := by
  by_cases calls : ∃ count, op = .call count
  · obtain ⟨count, rfl⟩ := calls
    simp only [dispatch, performCall]
    split
    · exact ⟨[], by simp, by simp⟩
    · rename_i f args rest operands
      obtain ⟨made, same, own⟩ := f.call_traced host state args
      refine ⟨made, by rw [same], fun c member => ⟨count, args, rest, rfl, ?_⟩⟩
      rw [own c member, operands]
    · exact ⟨[], by simp, by simp⟩
  · refine ⟨[], ?_, by simp⟩
    cases op with
    | call count => exact absurd ⟨count, rfl⟩ calls
    | _ => simp [dispatch]

theorem Program.runFrom_traced (p : Program) (builtins : BuiltinSet) (budget steps : Nat)
    (m : Machine) :
    (p.runFrom builtins host.traced budget steps m state).withoutCalls =
      p.runFrom builtins host budget steps m state.1 := by
  induction budget generalizing steps m state with
  | zero =>
      simp only [runFrom]
      split <;> rfl
  | succ budget ih =>
      simp only [runFrom]
      split
      · rfl
      · rename_i instruction found
        obtain ⟨made, same, _⟩ := Machine.dispatch_traced host state p builtins
          { m with next := m.next + 1 } instruction.op
        rw [same]
        cases effect : Machine.dispatch p builtins host { m with next := m.next + 1 } state.1
            instruction.op with
        | mk outcome world =>
            cases outcome with
            | error fault => rfl
            | ok flow =>
                cases flow with
                | goOn after => exact ih (world, state.2 ++ made) (steps + 1) after
                | finish v after => rfl

theorem Program.run_traced (p : Program) (limits : Limits) (builtins : BuiltinSet) :
    (p.run limits builtins host.traced state).withoutCalls =
      p.run limits builtins host state.1 :=
  run_related (R := fun report report' => report.withoutCalls = report')
    (fun _ _ same => (congrArg RunReport.steps same.symm :))
    (fun budget => p.runFrom_traced host state builtins budget 0 (.initial limits)) rfl

end Traced

end LessonScript
