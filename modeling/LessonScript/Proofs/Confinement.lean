import LessonScript.Proofs.HostCalls
import LessonScript.Proofs.ListingReading
import LessonScript.Proofs.References
import LessonScript.Proofs.ValueInvariants

/-!
Scripts do not reach a builtin that is switched off.

The set of builtins is asked only when a name is loaded, so a builtin outside the set could come
from the constants alone.  Compiled and assembled programs hold none there, and then every builtin
that a run ever holds is in the set, whatever the script does with it.
-/

namespace LessonScript

def BuiltinSet.Grants (builtins : BuiltinSet) (v : Value) : Prop :=
  ∀ f, v = .builtin f → builtins.contains f = true

/-- No constant of the program is a builtin. -/
def Program.HoldsNoBuiltin (p : Program) : Prop :=
  ∀ v ∈ p.constants, ∀ f, v ≠ .builtin f

theorem Literal.value_ne_builtin (l : Literal) (f : Builtin) : l.value ≠ .builtin f := by
  cases l <;> exact nofun

theorem Program.ofScript_holdsNoBuiltin (script : Script) : (ofScript script).HoldsNoBuiltin := by
  intro v member f
  have inTable := Array.mem_toList_iff.mpr member
  rw [(ofScript_uses script).constants] at inTable
  obtain ⟨l, _, rfl⟩ := List.mem_map.mp inTable
  exact l.value_ne_builtin f

theorem Program.HoldsNoBuiltin.addConstant {p : Program} (bare : p.HoldsNoBuiltin) (l : Literal) :
    (p.addConstant l.value).1.HoldsNoBuiltin := by
  unfold Program.addConstant
  dsimp only
  split
  · exact bare
  · intro v member f
    rcases Array.mem_push.mp member with known | rfl
    · exact bare v known f
    · exact l.value_ne_builtin f

theorem Program.HoldsNoBuiltin.addName {p : Program} (bare : p.HoldsNoBuiltin) (id : String) :
    (p.addName id).1.HoldsNoBuiltin := by
  unfold Program.addName
  split
  · exact bare
  · exact bare

namespace Assembly

theorem Adds.holdsNoBuiltin {p q : Program} (bare : p.HoldsNoBuiltin) {number : Nat} {line : String}
    (adds : Adds p number line q) : q.HoldsNoBuiltin := by
  cases adds with
  | passed => exact bare
  | @instruction mnemonic _ _ _ _ reads =>
      generalize String.ofList mnemonic = word at reads
      cases reads with
      | constant => exact bare.addConstant _
      | named => exact bare.addName _
      | comparison | numbered | bare | unknown => exact bare

theorem addLines_holdsNoBuiltin {p q : Program} (bare : p.HoldsNoBuiltin) {number : Nat}
    {lines : List String} (added : addLines p number lines = .ok q) : q.HoldsNoBuiltin :=
  addLines_preserves (fun adds bare => adds.holdsNoBuiltin bare) added bare

end Assembly

section Runs

variable {σ : Type} {p : Program} {builtins : BuiltinSet} {host : Host σ}

theorem Program.HoldsNoBuiltin.keeps (bare : p.HoldsNoBuiltin) :
    p.Keeps builtins host builtins.Grants where
  constant v member f same := absurd same (bare v member f)
  builtin f inside g same := by
    cases same
    exact inside
  computed v computed f same := by
    subst same
    cases computed
  call world f args v after _ granted called g same := by
    subst same
    have gives := f.resultOf_gives args
    unfold Builtin.call at called
    split at called
    · cases f with
      | print => cases called
      | input =>
          cases answered : host.input world (Builtin.promptOf args) with
          | mk answer behind =>
              rw [answered] at called
              cases answer <;> cases called
      | abs | min | max | len | str | int | float | round | range =>
          obtain ⟨result, _⟩ := Prod.mk.inj called
          -- Among the forms of results only an argument can be a builtin.
          rw [result] at gives
          cases gives with
          | computed computed => cases computed
          | argument member => exact granted _ member g rfl
    · cases called
  iteration v i _ _ f same := by cases same
  item i item after _ advanced := by
    refine ⟨?_, fun f same => by cases same⟩
    intro f same
    subst same
    cases i with
    | counting next stop step =>
        simp only [Iteration.advance?, Option.ite_none_right_eq_some] at advanced
        cases advanced.2
    | spelling text next =>
        simp only [Iteration.advance?] at advanced
        split at advanced <;> cases advanced

/-- Every builtin that the machine holds is in the set, and so is the one that it calls next. -/
structure Machine.Confined (m : Machine) (p : Program) (builtins : BuiltinSet) : Prop where
  stack : ∀ f, .builtin f ∈ m.stack.values → builtins.contains f = true
  locals : ∀ id f, (id, .builtin f) ∈ m.locals → builtins.contains f = true
  callee : ∀ count line f args rest, p.code[m.next]? = some ⟨.call count, line⟩ →
    Machine.callOperands? { m with next := m.next + 1 } "CALL_FUNCTION" count =
      .ok (.builtin f, args, rest) → builtins.contains f = true

theorem Machine.All.confined {m : Machine} (all : m.All builtins.Grants) :
    m.Confined p builtins where
  stack f member := all.stack _ member f rfl
  locals id f member := all.locals _ member f rfl
  callee count line f args rest _ operands := by
    have inner : Machine.All builtins.Grants { m with next := m.next + 1 } :=
      ⟨all.stack, all.locals⟩
    exact (callOperands?_yields inner _ count _ operands).1 f rfl

theorem Program.runFrom_calls (host : Host σ) (bare : p.HoldsNoBuiltin) (budget steps : Nat)
    {m : Machine} (all : m.All builtins.Grants) (state : σ × List HostCall)
    (before : ∀ c ∈ state.2, builtins.contains c.builtin = true) :
    ∀ c ∈ (p.runFrom builtins host.traced budget steps m state).world.2,
      builtins.contains c.builtin = true := by
  induction budget generalizing steps m state with
  | zero =>
      unfold Program.runFrom
      split <;> exact before
  | succ budget ih =>
      unfold Program.runFrom
      split
      · exact before
      · rename_i instruction found
        have inner : Machine.All builtins.Grants { m with next := m.next + 1 } :=
          ⟨all.stack, all.locals⟩
        have keeps : p.Keeps builtins host.traced builtins.Grants := bare.keeps
        have yields := Machine.dispatch_yields keeps inner state instruction.op
        obtain ⟨made, effect, own⟩ := Machine.dispatch_traced host state p builtins
          { m with next := m.next + 1 } instruction.op
        rw [effect] at yields ⊢
        have behind : ∀ c ∈ state.2 ++ made, builtins.contains c.builtin = true := by
          intro c member
          rcases List.mem_append.mp member with old | new
          · exact before c old
          · obtain ⟨count, args, rest, _, operands⟩ := own c new
            exact (Machine.callOperands?_yields inner _ count _ operands).1 _ rfl
        split
        · rename_i after world stepped
          obtain ⟨result, rfl⟩ := Prod.mk.inj stepped
          exact ih (steps + 1) (yields _ result) _ behind
        · rename_i v after world finished
          obtain ⟨_, rfl⟩ := Prod.mk.inj finished
          exact behind
        · rename_i fault world failed
          obtain ⟨_, rfl⟩ := Prod.mk.inj failed
          exact behind

theorem Program.run_calls (host : Host σ) (bare : p.HoldsNoBuiltin) {limits : Limits}
    (start : (Machine.initial limits).All builtins.Grants) (world : σ) :
    ∀ c ∈ (p.run limits builtins host.traced (world, [])).world.2,
      builtins.contains c.builtin = true :=
  run_induction
    (P := fun report : RunReport (σ × List HostCall) =>
      ∀ c ∈ report.world.2, builtins.contains c.builtin = true)
    (fun budget => runFrom_calls host bare budget 0 start (world, []) (List.forall_mem_nil _))
    (List.forall_mem_nil _)

end Runs

/-- Scripts cannot reach a builtin outside the set of the run: no machine that a run comes to holds
or calls one, the run neither returns one nor leaves one bound to a name, and the host is asked to
print or for input only if `print` or `input` is in the set. -/
theorem Program.builtins_confined :
    (∀ source p, ofSource? source = .ok p → p.HoldsNoBuiltin) ∧
    (∀ lines p, ofListing? lines = .ok p → p.HoldsNoBuiltin) ∧
    ∀ p : Program, p.HoldsNoBuiltin →
      ∀ {σ : Type} (host : Host σ) (builtins : BuiltinSet) (limits : Limits) (world : σ),
        (∀ m behind, p.Reaches builtins host (.initial limits) world m behind →
          m.Confined p builtins) ∧
        (∀ f, (p.run limits builtins host world).result = .ok (.builtin f) →
          builtins.contains f = true) ∧
        (∀ id f, (id, .builtin f) ∈ (p.run limits builtins host world).locals →
          builtins.contains f = true) ∧
        (p.run limits builtins host.traced (world, [])).withoutCalls =
          p.run limits builtins host world ∧
        (builtins.contains .print = false → ∀ message,
          .print message ∉ (p.run limits builtins host.traced (world, [])).world.2) ∧
        (builtins.contains .input = false → ∀ prompt,
          .input prompt ∉ (p.run limits builtins host.traced (world, [])).world.2) := by
  refine ⟨?_, ?_, ?_⟩
  · intro source p compiled
    obtain ⟨script, _, rfl⟩ := exists_of_ofSource? compiled
    exact ofScript_holdsNoBuiltin script
  · intro lines p assembled
    have bare : Program.empty.HoldsNoBuiltin := by simp [HoldsNoBuiltin, Program.empty]
    exact Assembly.addLines_holdsNoBuiltin bare assembled
  · intro p bare σ host builtins limits world
    have start : (Machine.initial limits).All builtins.Grants := Machine.initial_all _ limits
    have keeps : p.Keeps builtins host builtins.Grants := bare.keeps
    have ends := run_all keeps nofun start world
    have calls := run_calls host bare start world
    refine ⟨?_, ?_, ?_, p.run_traced host (world, []) limits builtins, ?_, ?_⟩
    · intro m behind reached
      exact (reached.all keeps start).confined
    · intro f returned
      exact ends.1 _ returned f rfl
    · intro id f bound
      exact ends.2 _ bound f rfl
    · intro absent message called
      cases (calls _ called).symm.trans absent
    · intro absent prompt called
      cases (calls _ called).symm.trans absent

/-- A builtin under another name is still one of the set, and the name of an absent one stays
unbound. -/
theorem Program.renamed_builtin_confined :
    ∃ p q, ofSource? "say = max\nlen = say\nlen(len, say)\ninput('?')\n" = .ok p ∧
      ofListing? ["LOAD_NAME print", "STORE_NAME input", "CALL_FUNCTION 3"] = .ok q ∧
      p.HoldsNoBuiltin ∧ q.HoldsNoBuiltin ∧
      BuiltinSet.contains (.erase .standard .input) .input = false ∧
      (∀ m behind,
        p.Reaches (.erase .standard .input) Recorder.host (.initial .standard) (.ofInputs []) m
          behind → m.Confined p (.erase .standard .input)) ∧
      ∀ prompt, .input prompt ∉ (p.run .standard (.erase .standard .input) Recorder.host.traced
        (.ofInputs [], [])).world.2 := by
  obtain ⟨p, compiled⟩ := exists_of_isOk "say = max\nlen = say\nlen(len, say)\ninput('?')\n"
    (by decide +kernel)
  obtain ⟨q, assembled⟩ : ∃ q,
      ofListing? ["LOAD_NAME print", "STORE_NAME input", "CALL_FUNCTION 3"] = .ok q :=
    exists_ok_of_isOk (by decide +kernel)
  obtain ⟨ofCompiled, ofAssembled, confined⟩ := builtins_confined
  have bare := ofCompiled _ p compiled
  obtain ⟨reached, _, _, _, _, silent⟩ :=
    confined p bare Recorder.host (.erase .standard .input) .standard (.ofInputs [])
  exact ⟨p, q, compiled, assembled, bare, ofAssembled _ q assembled, by decide, reached,
    silent (by decide)⟩

end LessonScript
