import LessonScript.Proofs.Instructions
import LessonScript.Proofs.ResultForms
import LessonScript.Proofs.RunSteps

/-!
Properties of values that a run keeps.

`Program.Keeps` lists the places where a value can come from: the constants, the builtins of the
run, the operators, a call, and an iteration with its items.  A property that survives all of them
holds of every value on the stack and in the bindings of every machine that a run comes to, and
of its result (`Program.Reaches.all`, `Program.run_all`), whatever the program is.
-/

namespace LessonScript

/-- What the computation yields, if it does not fail, has the property. -/
def Yields {α : Type} (Q : α → Prop) (x : Except Fault α) : Prop :=
  ∀ a, x = .ok a → Q a

section Yields

variable {α β : Type} {Q : α → Prop} {R : β → Prop}

theorem Yields.ok {a : α} (holds : Q a) : Yields Q (.ok a) := by
  intro b same
  cases same
  exact holds

theorem Yields.error (fault : Fault) : Yields Q (.error fault) := by
  intro a same
  cases same

theorem Yields.bind {x : Except Fault α} {f : α → Except Fault β} (first : Yields Q x)
    (next : ∀ a, Q a → Yields R (f a)) : Yields R (x >>= f) := by
  cases x with
  | error fault => exact .error fault
  | ok a => exact next a (first a rfl)

theorem Yields.behind {x : Except Fault α} {f : α → Except Fault β}
    (next : ∀ a, Yields R (f a)) : Yields R (x >>= f) :=
  Yields.bind (Q := fun _ => True) (fun _ _ => trivial) fun a _ => next a

end Yields

variable {P : Value → Prop}

def Stack.All (P : Value → Prop) (s : Stack) : Prop :=
  ∀ v ∈ s.values, P v

namespace Stack.All

variable {s : Stack}

theorem push (all : s.All P) {v : Value} (holds : P v) : Yields (Stack.All P) (s.push? v) := by
  unfold Stack.push?
  split
  · exact .error _
  · exact .ok (List.forall_mem_cons.mpr ⟨holds, all⟩)

theorem pop (all : s.All P) (opcode : String) :
    Yields (fun r => P r.1 ∧ r.2.All P) (s.pop? opcode) := by
  unfold Stack.pop?
  split
  · exact .error _
  · rename_i v values same
    rw [Stack.All, same] at all
    exact .ok (List.forall_mem_cons.mp all)

theorem peek (all : s.All P) (opcode : String) : Yields P (s.peek? opcode) := by
  unfold Stack.peek?
  split
  · exact .error _
  · rename_i v values same
    rw [Stack.All, same] at all
    exact .ok (all v (List.mem_cons_self ..))

theorem replaceTop (all : s.All P) {v : Value} (holds : P v) (opcode : String) :
    Yields (Stack.All P) (s.replaceTop? v opcode) := by
  unfold Stack.replaceTop?
  split
  · exact .error _
  · rename_i w values same
    rw [Stack.All, same] at all
    exact .ok (List.forall_mem_cons.mpr ⟨holds, (List.forall_mem_cons.mp all).2⟩)

theorem popMany (all : s.All P) (count : Nat) (opcode : String) :
    Yields (fun r => (∀ v ∈ r.1, P v) ∧ r.2.All P) (s.popMany? count opcode) := by
  unfold Stack.popMany?
  split
  · apply Yields.ok
    constructor
    · intro v member
      exact all v (List.mem_of_mem_take (List.mem_reverse.mp member))
    · intro v member
      exact all v (List.mem_of_mem_drop member)
  · exact .error _

end Stack.All

def Locals.All (P : Value → Prop) (locals : Locals) : Prop :=
  ∀ entry ∈ locals, P entry.2

theorem Locals.All.store {locals : Locals} (all : locals.All P) (id : String) {v : Value}
    (holds : P v) : (locals.store id v).All P := by
  intro entry member
  cases Locals.mem_store member with
  | inl stored => exact stored ▸ holds
  | inr kept => exact all entry kept

theorem Locals.All.find {locals : Locals} (all : locals.All P) {id : String} {v : Value}
    (found : locals.find? id = some v) : P v := by
  obtain ⟨front, back, rfl, _⟩ := List.lookup_eq_some_iff.mp found
  exact all (id, v) (by simp)

structure Machine.All (P : Value → Prop) (m : Machine) : Prop where
  stack : m.stack.All P
  locals : m.locals.All P

/-- What the instruction leads to holds only values with the property. -/
def Machine.Flow.All (P : Value → Prop) : Machine.Flow → Prop
  | .goOn m => m.All P
  | .finish result m => P result ∧ m.All P

/-- The property holds of every value that comes into a run, and of every value that a run makes
out of values with the property. -/
structure Program.Keeps {σ : Type} (p : Program) (builtins : BuiltinSet) (host : Host σ)
    (P : Value → Prop) : Prop where
  constant : ∀ v ∈ p.constants, P v
  builtin : ∀ f, builtins.contains f = true → P (.builtin f)
  computed : ∀ v : Value, v.Computed → P v
  call : ∀ world f args v after, P (.builtin f) → (∀ a ∈ args, P a) →
    f.call host world args = (.ok v, after) → P v
  iteration : ∀ v i, P v → Machine.iterationOf v = .ok i → P (.iter i)
  item : ∀ i item after, P (.iter i) → i.advance? = some (item, after) →
    P item ∧ P (.iter after)

section Step

variable {σ : Type} {p : Program} {builtins : BuiltinSet} {host : Host σ} {m : Machine}

theorem Machine.All.withStack (all : m.All P) {stack : Stack} (allStack : stack.All P) :
    Machine.All P { m with stack := stack } :=
  ⟨allStack, all.locals⟩

theorem Machine.All.push (all : m.All P) {v : Value} (holds : P v) :
    Yields (Machine.All P) (m.push? v) :=
  (all.stack.push holds).bind fun _ stack => .ok ⟨stack, all.locals⟩

theorem Machine.All.jump (all : m.All P) (target : Nat) :
    Yields (Machine.All P) (m.jump? p target) := by
  unfold Machine.jump?
  split
  · exact .ok ⟨all.stack, all.locals⟩
  · exact .error _

theorem Value.Computes.yields {r : Except Fault Value} (computes : Value.Computes r)
    (keeps : ∀ v : Value, v.Computed → P v) : Yields P r := by
  cases computes with
  | value computed => exact .ok (keeps _ computed)
  | fault => exact .error _

theorem Machine.All.binary (all : m.All P) (opcode : String)
    {f : Value → Value → Except Fault Value} (yields : ∀ a b, Yields P (f a b)) :
    Yields (Machine.All P) (m.binary? opcode f) := by
  refine (all.stack.pop opcode).bind ?_
  rintro ⟨b, stack⟩ ⟨_, allInner⟩
  refine (allInner.pop opcode).bind ?_
  rintro ⟨a, stack⟩ ⟨_, allRest⟩
  refine (yields a b).bind ?_
  intro v holds
  exact (all.withStack allRest).push holds

theorem Machine.All.unary (all : m.All P) (opcode : String) {f : Value → Except Fault Value}
    (yields : ∀ a, Yields P (f a)) : Yields (Machine.All P) (m.unary? opcode f) := by
  refine (all.stack.pop opcode).bind ?_
  rintro ⟨a, stack⟩ ⟨_, allRest⟩
  refine (yields a).bind ?_
  intro v holds
  exact (all.withStack allRest).push holds

theorem Machine.All.forIter (keeps : p.Keeps builtins host P) (all : m.All P) (opcode : String)
    (target : Nat) : Yields (Machine.All P) (m.forIter? p opcode target) := by
  refine (all.stack.peek opcode).bind ?_
  intro v holds
  split
  · split
    · rename_i item after advanced
      obtain ⟨atItem, atAfter⟩ := keeps.item _ _ _ holds advanced
      refine (all.stack.replaceTop atAfter opcode).bind ?_
      intro stack allStack
      exact (all.withStack allStack).push atItem
    · refine (all.stack.pop opcode).bind ?_
      rintro ⟨_, stack⟩ ⟨_, allRest⟩
      exact (all.withStack allRest).jump target
  · exact .error _

theorem Program.Keeps.load (keeps : p.Keeps builtins host P) {locals : Locals}
    (all : locals.All P) (id : String) : Yields P (locals.load? builtins id) := by
  unfold Locals.load?
  split
  · rename_i v found
    exact .ok (all.find found)
  · split
    · rename_i f found
      exact .ok (keeps.builtin f (BuiltinSet.lookup?_eq_some_iff.mp found).2)
    · exact .error _

theorem Yields.goOn {x : Except Fault Machine} (yields : Yields (Machine.All P) x) :
    Yields (Machine.Flow.All P) (x >>= fun m => .ok (.goOn m)) :=
  yields.bind fun _ all => .ok all

theorem Program.constant?_yields (keeps : p.Keeps builtins host P) (index : Nat) :
    Yields P (p.constant? index) := by
  unfold Program.constant?
  split
  · rename_i v found
    exact .ok (keeps.constant v (Array.mem_of_getElem? found))
  · exact .error _

theorem Machine.perform?_yields (keeps : p.Keeps builtins host P) (all : m.All P) (op : Opcode) :
    Yields (Machine.Flow.All P) (m.perform? p builtins op) := by
  cases op with
  | loadConst index =>
      exact (Program.constant?_yields keeps index).bind fun v holds => (all.push holds).goOn
  | loadName index | loadFast index =>
      refine .behind fun id => ?_
      exact (keeps.load all.locals id).bind fun v holds => (all.push holds).goOn
  | storeName index | storeFast index =>
      refine (all.stack.pop _).bind ?_
      rintro ⟨v, stack⟩ ⟨holds, allRest⟩
      refine .behind fun id => ?_
      exact .ok ⟨allRest, all.locals.store id holds⟩
  | arith op =>
      exact (all.binary _ fun a b => (Value.arith_computes op a b).yields keeps.computed).goOn
  | compare op =>
      exact (all.binary _ fun a b => (Value.comparison_computes op a b).yields keeps.computed).goOn
  | negate => exact (all.unary _ fun a => a.negate_computes.yields keeps.computed).goOn
  | complement => exact (all.unary _ fun a => .ok (keeps.computed _ (.bool _))).goOn
  | call count => exact .ok all
  | popTop =>
      refine (all.stack.pop _).bind ?_
      rintro ⟨v, stack⟩ ⟨_, allRest⟩
      exact .ok (all.withStack allRest)
  | returnValue =>
      refine (all.stack.pop _).bind ?_
      rintro ⟨v, stack⟩ ⟨holds, allRest⟩
      exact .ok ⟨holds, all.withStack allRest⟩
  | jump target => exact (all.jump target).goOn
  | popJumpIf truth target =>
      refine (all.stack.pop _).bind ?_
      rintro ⟨v, stack⟩ ⟨_, allRest⟩
      have allPopped := all.withStack allRest
      dsimp only
      split
      · exact (allPopped.jump target).goOn
      · exact .ok allPopped
  | jumpIfOrPop truth target =>
      refine (all.stack.peek _).bind ?_
      intro v _
      split
      · exact (all.jump target).goOn
      · refine (all.stack.pop _).bind ?_
        rintro ⟨_, stack⟩ ⟨_, allRest⟩
        exact .ok (all.withStack allRest)
  | getIter =>
      refine (all.stack.pop _).bind ?_
      rintro ⟨v, stack⟩ ⟨holds, allRest⟩
      refine Yields.bind (keeps.iteration v · holds) ?_
      intro i holds
      exact ((all.withStack allRest).push holds).goOn
  | forIter target => exact (all.forIter keeps _ target).goOn
  | unknown => exact .error _

theorem Machine.callOperands?_yields (all : m.All P) (opcode : String) (count : Nat) :
    Yields (fun r => P r.1 ∧ (∀ v ∈ r.2.1, P v) ∧ r.2.2.All P) (m.callOperands? opcode count) := by
  refine (all.stack.popMany count opcode).bind ?_
  rintro ⟨args, stack⟩ ⟨allArgs, allInner⟩
  refine (allInner.pop opcode).bind ?_
  rintro ⟨callee, stack⟩ ⟨holds, allRest⟩
  exact .ok ⟨holds, allArgs, all.withStack allRest⟩

theorem Machine.performCall_yields (keeps : p.Keeps builtins host P) (all : m.All P) (world : σ)
    (opcode : String) (count : Nat) :
    Yields (Machine.Flow.All P) (m.performCall host world opcode count).1 := by
  have operands := callOperands?_yields all opcode count
  unfold Machine.performCall
  split
  · exact .error _
  · rename_i f args rest same
    obtain ⟨holds, allArgs, allRest⟩ := operands _ same
    cases called : f.call host world args with
    | mk result after =>
        refine Yields.bind (Q := P) ?_ fun v holds => (allRest.push holds).goOn
        intro v same
        subst same
        exact keeps.call world f args v after holds allArgs called
  · exact .error _

theorem Machine.dispatch_yields (keeps : p.Keeps builtins host P) (all : m.All P) (world : σ)
    (op : Opcode) : Yields (Machine.Flow.All P) (dispatch p builtins host m world op).1 := by
  unfold dispatch
  split
  · exact performCall_yields keeps all world _ _
  · exact perform?_yields keeps all _

end Step

section Runs

variable {σ : Type} {p : Program} {builtins : BuiltinSet} {host : Host σ}

theorem Machine.initial_all (P : Value → Prop) (limits : Limits) :
    (Machine.initial limits).All P :=
  ⟨List.forall_mem_nil _, List.forall_mem_nil _⟩

theorem Program.Reaches.all (keeps : p.Keeps builtins host P) {start m : Machine}
    {world behind : σ} (all : start.All P)
    (reached : p.Reaches builtins host start world m behind) : m.All P := by
  induction reached with
  | start => exact all
  | @step m after before behind instruction _ found stepped ih =>
      have inner : Machine.All P { m with next := m.next + 1 } := ⟨ih.stack, ih.locals⟩
      have yields := Machine.dispatch_yields keeps inner before instruction.op
      rw [stepped] at yields
      exact yields _ rfl

theorem Program.runFrom_all (keeps : p.Keeps builtins host P) (nothing : P .nothing)
    (budget steps : Nat) {m : Machine} (all : m.All P) (world : σ) :
    (∀ v, (p.runFrom builtins host budget steps m world).result = .ok v → P v) ∧
      (p.runFrom builtins host budget steps m world).locals.All P := by
  induction budget generalizing steps m world with
  | zero =>
      unfold Program.runFrom
      split
      · exact ⟨fun v same => Except.ok.inj same ▸ nothing, all.locals⟩
      · exact ⟨fun _ same => (by cases same), all.locals⟩
  | succ budget ih =>
      unfold Program.runFrom
      split
      · exact ⟨fun v same => Except.ok.inj same ▸ nothing, all.locals⟩
      · rename_i instruction found
        have inner : Machine.All P { m with next := m.next + 1 } := ⟨all.stack, all.locals⟩
        have yields := Machine.dispatch_yields keeps inner world instruction.op
        split
        · rename_i after behind stepped
          rw [stepped] at yields
          exact ih (steps + 1) (yields _ rfl) behind
        · rename_i v after behind finished
          rw [finished] at yields
          obtain ⟨holds, allAfter⟩ := yields _ rfl
          exact ⟨fun w same => Except.ok.inj same ▸ holds, allAfter.locals⟩
        · exact ⟨fun _ same => (by cases same), all.locals⟩

theorem Program.run_all (keeps : p.Keeps builtins host P) (nothing : P .nothing) {limits : Limits}
    (all : (Machine.initial limits).All P) (world : σ) :
    (∀ v, (p.run limits builtins host world).result = .ok v → P v) ∧
      (p.run limits builtins host world).locals.All P :=
  run_induction
    (P := fun report => (∀ v, report.result = .ok v → P v) ∧ report.locals.All P)
    (fun budget => runFrom_all keeps nothing budget 0 all world)
    ⟨fun _ same => Except.ok.inj same ▸ nothing, List.forall_mem_nil _⟩

end Runs

end LessonScript
