import LessonScript.Proofs.HostCalls
import LessonScript.Proofs.RunLimits

/-!
What a failing instruction leaves.

An instruction that fails has called its host at most for input that it did not get
(`Machine.dispatch_failed`); once a message is printed, the instruction goes through.  So a run
that fails leaves the bindings and the messages of the instructions before, and its error names
the instruction (`Program.run_fails_precisely`).
-/

namespace LessonScript

variable {σ : Type} {host : Host σ}

/-- What an instruction may have done to its host before it failed: nothing, or it asked for input
and the host refused. -/
inductive OnlyAsked (host : Host σ) (fault : Fault) (before : σ) : σ → List HostCall → Prop
  | nothing : OnlyAsked host fault before before []
  | asked {prompt : String} {after : σ}
      (refused : host.input before prompt = (.error fault, after)) :
      OnlyAsked host fault before after [.input prompt]

theorem OnlyAsked.print_notMem {fault : Fault} {before after : σ} {made : List HostCall}
    (only : OnlyAsked host fault before after made) (message : String) :
    .print message ∉ made := by
  cases only with
  | nothing => exact List.not_mem_nil
  | asked => simp

theorem Builtin.call_failed {f : Builtin} {args : List Value} {state after : σ × List HostCall}
    {fault : Fault} (failed : f.call host.traced state args = (.error fault, after)) :
    ∃ made, after.2 = state.2 ++ made ∧ OnlyAsked host fault state.1 after.1 made := by
  unfold Builtin.call at failed
  split at failed
  · cases f with
    | print => cases failed
    | input =>
        cases answered : host.input state.1 (promptOf args) with
        | mk answer world =>
            simp only [Host.traced, answered] at failed
            cases answer with
            | ok line => cases failed
            | error refused =>
                cases failed
                exact ⟨_, rfl, .asked answered⟩
    | abs | min | max | len | str | int | float | round | range =>
        obtain ⟨_, rfl⟩ := Prod.mk.inj failed
        exact ⟨[], (List.append_nil _).symm, .nothing⟩
  · cases failed
    exact ⟨[], (List.append_nil _).symm, .nothing⟩

section Instructions

variable {p : Program} {builtins : BuiltinSet} {m : Machine} {state after : σ × List HostCall}
  {op : Opcode}

theorem Machine.dispatch_failed {fault : Fault}
    (failed : dispatch p builtins host.traced m state op = (.error fault, after)) :
    ∃ made, after.2 = state.2 ++ made ∧ OnlyAsked host fault state.1 after.1 made := by
  unfold dispatch at failed
  split at failed
  · cases performCall_failed failed with
    | missing | notCallable => exact ⟨[], (List.append_nil _).symm, .nothing⟩
    | builtin failed => exact Builtin.call_failed failed
  · obtain ⟨_, rfl⟩ := Prod.mk.inj failed
    exact ⟨[], (List.append_nil _).symm, .nothing⟩

theorem Machine.dispatch_of_print {made : List HostCall} {message : String}
    (added : (dispatch p builtins host.traced m state op).2.2 = state.2 ++ made)
    (printed : .print message ∈ made) :
    ∃ flow, (dispatch p builtins host.traced m state op).1 = .ok flow := by
  cases effect : dispatch p builtins host.traced m state op with
  | mk outcome behind =>
      rw [effect] at added
      cases outcome with
      | ok flow => exact ⟨flow, rfl⟩
      | error fault =>
          obtain ⟨made', added', only⟩ := dispatch_failed effect
          obtain rfl := List.append_cancel_left (added.symm.trans added')
          exact absurd printed (only.print_notMem message)

end Instructions

namespace Program

/-- The record of its calls changes nothing in the states that a run comes to. -/
theorem stateAfter_traced {p : Program} {builtins : BuiltinSet} {n : Nat} {m last : Machine}
    {state before : σ × List HostCall}
    (reached : p.stateAfter builtins host.traced n m state = some (last, before)) :
    p.stateAfter builtins host n m state.1 = some (last, before.1) := by
  induction n generalizing m state with
  | zero =>
      cases reached
      rfl
  | succ n ih =>
      obtain ⟨instruction, after, behind, found, stepped, rest⟩ :=
        exists_of_stateAfter_succ reached
      obtain ⟨made, same, _⟩ := Machine.dispatch_traced host state p builtins
        { m with next := m.next + 1 } instruction.op
      rw [stepped] at same
      obtain ⟨goesOn, rfl⟩ := Prod.mk.inj same
      rw [stateAfter_of_step found (Prod.ext goesOn.symm rfl)]
      exact ih rest

/-- The run with its error fails in this state, behind `n` instructions and the calls of its host
that they made; its last instruction made the calls `made`. -/
structure FailsAt (p : Program) (limits : Limits) (builtins : BuiltinSet) (host : Host σ)
    (world : σ) (error : Error) (n : Nat) (m : Machine) (before : σ) (calls made : List HostCall) :
    Prop where
  within : ∀ limit ∈ limits.maxSteps, n ≤ limit
  reached : p.stateAfter builtins host n (.initial limits) world = some (m, before)
  traced : p.stateAfter builtins host.traced n (.initial limits) (world, []) =
    some (m, before, calls)
  /-- The error names the line, the offset and the mnemonic of the instruction, which fails by
  itself or finds no step left. -/
  named : ∃ instruction, p.code[m.next]? = some instruction ∧
    error.site = some ⟨some instruction.line, some m.next, some instruction.op.mnemonic⟩ ∧
    ((Machine.dispatch p builtins host { m with next := m.next + 1 } before instruction.op).1 =
        .error error.fault ∨
      limits.maxSteps = some n ∧ error.fault = .limit (.steps n))
  /-- The instruction counts as a step. -/
  steps : (p.run limits builtins host world).steps = n + 1
  locals : (p.run limits builtins host world).locals = m.locals
  called : (p.run limits builtins host.traced (world, [])).world.2 = calls ++ made
  only : OnlyAsked host error.fault before (p.run limits builtins host world).world made

/-- A run that fails leaves everything as it was before its last instruction, but for a question
that the host did not answer, and its error names that instruction.  In no state does an instruction
that fails leave the machine with other bindings, or fail when it has printed a message. -/
theorem run_fails_precisely (p : Program) (limits : Limits) (builtins : BuiltinSet) (host : Host σ)
    (world : σ) {error : Error}
    (failed : (p.run limits builtins host world).result = .error error) :
    (∃ n m before calls made, p.FailsAt limits builtins host world error n m before calls made) ∧
      (∀ m before op fault left after,
        Action.dispatch p builtins host op m before = (.error fault left, after) →
          left.locals = m.locals) ∧
      ∀ m state op made message,
        (Machine.dispatch p builtins host.traced m state op).2.2 = state.2 ++ made →
          .print message ∈ made →
            ∃ flow, (Machine.dispatch p builtins host.traced m state op).1 = .ok flow := by
  refine ⟨?_, fun m before op fault left after => Action.dispatch_locals,
    fun m state op made message => Machine.dispatch_of_print⟩
  have same : p.run limits builtins host world =
      (p.run limits builtins host.traced (world, [])).withoutCalls :=
    (p.run_traced host (world, []) limits builtins).symm
  rw [same] at failed
  obtain ⟨n, m, ⟨before, calls⟩, within, reached, ends⟩ := run_endsWithin_of_error failed
  rw [Nat.zero_add] at ends
  have reached' := stateAfter_traced reached
  cases shown : p.run limits builtins host.traced (world, []) with
  | mk result steps locals state =>
      rw [shown] at same ends failed
      cases ends with
      | atEnd | returned => cases failed
      | exhausted found spent =>
          cases failed
          obtain ⟨budget, given, whole⟩ := Option.map_eq_some_iff.mp spent
          have inside := within budget given
          have all : limits.maxSteps = some n := given.trans (congrArg some (by omega))
          refine ⟨n, m, before, calls, [], within, reached', reached,
            ⟨_, found, rfl, .inr ⟨all, rfl⟩⟩, ?_, ?_, ?_, ?_⟩
          · rw [same]; rfl
          · rw [same]; rfl
          · rw [shown, List.append_nil]
          · rw [same]; exact .nothing
      | failed found _ refused =>
          cases failed
          obtain ⟨made, added, only⟩ := Machine.dispatch_failed refused
          obtain ⟨_, effect, _⟩ := Machine.dispatch_traced host (before, calls) p builtins _ _
          have fails := congrArg Prod.fst (effect.symm.trans refused)
          refine ⟨n, m, before, calls, made, within, reached', reached,
            ⟨_, found, rfl, .inl fails⟩, ?_, ?_, ?_, ?_⟩
          · rw [same]; rfl
          · rw [same]; rfl
          · rw [shown]; exact added
          · rw [same]; exact only

theorem division_fails_precisely :
    ∃ p error, ofSource? "x = 1\nprint(x)\nprint(x // 0)\n" = .ok p ∧
      (p.run .standard .standard Recorder.host (.ofInputs [])).result = .error error ∧
      ∃ n m before calls made,
        p.FailsAt .standard .standard Recorder.host (.ofInputs []) error n m before calls made := by
  obtain ⟨p, compiled⟩ := exists_of_isOk "x = 1\nprint(x)\nprint(x // 0)\n" (by decide +kernel)
  have ran : ((ofSource? "x = 1\nprint(x)\nprint(x // 0)\n").toOption.any fun p =>
      !(p.run .standard .standard Recorder.host (.ofInputs [])).result.isOk) = true := by
    decide +kernel
  rw [compiled] at ran
  change (!(p.run .standard .standard Recorder.host (.ofInputs [])).result.isOk) = true at ran
  cases failed : (p.run .standard .standard Recorder.host (.ofInputs [])).result with
  | ok v =>
      rw [failed] at ran
      cases ran
  | error error =>
      exact ⟨p, error, compiled, failed,
        (run_fails_precisely p .standard .standard Recorder.host (.ofInputs []) failed).1⟩

end Program

end LessonScript
