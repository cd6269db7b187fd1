import LessonScript.Proofs.Instructions
import LessonScript.Proofs.Meaning
import LessonScript.Proofs.References
import LessonScript.Proofs.RunSteps

/-!
The code of an expression delivers the value of the expression.

A stretch of code delivers an outcome when every run that enters it comes to its end with the
value, or to an instruction in it that fails with the fault.  It takes no more steps than it has
instructions, and no more places on the stack than the tree says (`Expr.places`); with fewer places
the run may also come to an instruction that finds the stack full.  Outcomes of stretches compose
like the computations themselves (`Delivers.bind`), so `Expr.computes` follows the tree.
-/

namespace LessonScript

variable {σ : Type}

/-- The run gets from one state to another in `n` instructions, each of them between `lo` and
`hi`. -/
inductive Passes (p : Program) (builtins : BuiltinSet) (host : Host σ) (lo hi : Nat) :
    Nat → Machine → σ → Machine → σ → Prop
  | refl (m : Machine) (world : σ) : Passes p builtins host lo hi 0 m world m world
  | step {n : Nat} {instruction : Instruction} {m after last : Machine} {world behind before : σ}
      (found : p.code[m.next]? = some instruction) (low : lo ≤ m.next) (high : m.next < hi)
      (stepped : Machine.dispatch p builtins host { m with next := m.next + 1 } world
        instruction.op = (.ok (.goOn after), behind))
      (rest : Passes p builtins host lo hi n after behind last before) :
      Passes p builtins host lo hi (n + 1) m world last before

structure FailsIn (p : Program) (builtins : BuiltinSet) (host : Host σ) (lo hi : Nat) (m : Machine)
    (world : σ) (instruction : Instruction) (fault : Fault) (behind : σ) : Prop where
  found : p.code[m.next]? = some instruction
  low : lo ≤ m.next
  high : m.next < hi
  refused : Machine.dispatch p builtins host { m with next := m.next + 1 } world instruction.op =
    (.error fault, behind)

/-- The next instruction stands between `lo` and `hi` and finds the stack full.  It is no call, for
a call frees the place for its result. -/
def FullIn (p : Program) (builtins : BuiltinSet) (host : Host σ) (lo hi : Nat) (m : Machine)
    (world : σ) : Prop :=
  ∃ instruction limit, FailsIn p builtins host lo hi m world instruction (.limit (.depth limit))
    world ∧ instruction.op.mnemonic ≠ "CALL_FUNCTION"

section Stretches

variable {p : Program} {builtins : BuiltinSet} {host : Host σ} {lo hi n : Nat}
  {m last : Machine} {world before : σ}

namespace Passes

theorem trans {k : Nat} {middle : Machine} {between : σ}
    (first : Passes p builtins host lo hi n m world middle between)
    (second : Passes p builtins host lo hi k middle between last before) :
    Passes p builtins host lo hi (n + k) m world last before := by
  induction first with
  | refl => rwa [Nat.zero_add]
  | step found low high stepped _ ih =>
      rw [Nat.succ_add]
      exact .step found low high stepped (ih second)

theorem widen {lo' hi' : Nat} (lower : lo' ≤ lo) (higher : hi ≤ hi')
    (passes : Passes p builtins host lo hi n m world last before) :
    Passes p builtins host lo' hi' n m world last before := by
  induction passes with
  | refl => exact .refl _ _
  | step found low high stepped _ ih =>
      exact .step found (Nat.le_trans lower low) (Nat.lt_of_lt_of_le high higher) stepped ih

theorem stateAfter (passes : Passes p builtins host lo hi n m world last before) :
    p.stateAfter builtins host n m world = some (last, before) := by
  induction passes with
  | refl => rfl
  | step found _ _ stepped _ ih => rw [Program.stateAfter_of_step found stepped, ih]

theorem exists_at {k : Nat} (passes : Passes p builtins host lo hi n m world last before)
    (less : k < n) :
    ∃ instruction middle between, p.stateAfter builtins host k m world = some (middle, between) ∧
      p.code[middle.next]? = some instruction ∧ lo ≤ middle.next ∧ middle.next < hi := by
  induction passes generalizing k with
  | refl => cases less
  | @step n instruction m after last world behind before found low high stepped _ ih =>
      cases k with
      | zero => exact ⟨instruction, m, world, rfl, found, low, high⟩
      | succ k =>
          rw [Program.stateAfter_of_step found stepped]
          exact ih (Nat.lt_of_succ_lt_succ less)

end Passes

theorem FailsIn.widen {lo' hi' : Nat} {instruction : Instruction} {fault : Fault} {behind : σ}
    (lower : lo' ≤ lo) (higher : hi ≤ hi')
    (fails : FailsIn p builtins host lo hi m world instruction fault behind) :
    FailsIn p builtins host lo' hi' m world instruction fault behind :=
  ⟨fails.found, Nat.le_trans lower fails.low, Nat.lt_of_lt_of_le fails.high higher, fails.refused⟩

theorem FullIn.widen {lo' hi' : Nat} (lower : lo' ≤ lo) (higher : hi ≤ hi')
    (full : FullIn p builtins host lo hi m world) : FullIn p builtins host lo' hi' m world := by
  obtain ⟨instruction, limit, fails, noCall⟩ := full
  exact ⟨instruction, limit, fails.widen lower higher, noCall⟩

end Stretches

/-- From the machine `m`, the code between `lo` and `hi` delivers the outcome within so many steps:
the run comes to a machine behind it that satisfies `after`, or it fails in it and has the bindings
`locals`; or it finds the stack full in it, if the stack is too short. -/
inductive Delivers {α : Type} (p : Program) (builtins : BuiltinSet) (host : Host σ)
    (lo hi steps : Nat) (short : Prop) (m : Machine) (world : σ) (locals : Locals) :
    Except Fault α × σ → (α → Machine → Prop) → Prop
  | value {n : Nat} {a : α} {m' : Machine} {behind : σ} {after : α → Machine → Prop}
      (fast : n ≤ steps) (passes : Passes p builtins host lo hi n m world m' behind)
      (arrived : after a m') :
      Delivers p builtins host lo hi steps short m world locals (.ok a, behind) after
  | fault {n : Nat} {last : Machine} {before behind : σ} {instruction : Instruction} {fault : Fault}
      {after : α → Machine → Prop} (fast : n < steps)
      (passes : Passes p builtins host lo hi n m world last before) (kept : last.locals = locals)
      (fails : FailsIn p builtins host lo hi last before instruction fault behind) :
      Delivers p builtins host lo hi steps short m world locals (.error fault, behind) after
  | full {n : Nat} {last : Machine} {before : σ} {outcome : Except Fault α × σ}
      {after : α → Machine → Prop} (tight : short) (fast : n < steps)
      (passes : Passes p builtins host lo hi n m world last before) (kept : last.locals = locals)
      (full : FullIn p builtins host lo hi last before) :
      Delivers p builtins host lo hi steps short m world locals outcome after

namespace Delivers

variable {α β : Type} {p : Program} {builtins : BuiltinSet} {host : Host σ} {lo hi steps : Nat}
  {short : Prop} {m m' : Machine} {world behind : σ} {locals : Locals}
  {outcome : Except Fault α × σ} {after : α → Machine → Prop}

theorem of_passes {n : Nat} (passes : Passes p builtins host lo hi n m world m' behind)
    (delivers : Delivers p builtins host lo hi steps short m' behind locals outcome after) :
    Delivers p builtins host lo hi (n + steps) short m world locals outcome after := by
  cases delivers with
  | value fast onward arrived =>
      exact .value (Nat.add_le_add_left fast n) (passes.trans onward) arrived
  | fault fast onward kept fails =>
      exact .fault (Nat.add_lt_add_left fast n) (passes.trans onward) kept fails
  | full tight fast onward kept full =>
      exact .full tight (Nat.add_lt_add_left fast n) (passes.trans onward) kept full

theorem widen {lo' hi' steps' : Nat} {short' : Prop} (lower : lo' ≤ lo) (higher : hi ≤ hi')
    (slower : steps ≤ steps') (shorter : short → short')
    (delivers : Delivers p builtins host lo hi steps short m world locals outcome after) :
    Delivers p builtins host lo' hi' steps' short' m world locals outcome after := by
  cases delivers with
  | value fast passes arrived =>
      exact .value (Nat.le_trans fast slower) (passes.widen lower higher) arrived
  | fault fast passes kept fails =>
      exact .fault (Nat.lt_of_lt_of_le fast slower) (passes.widen lower higher) kept
        (fails.widen lower higher)
  | full tight fast passes kept full =>
      exact .full (shorter tight) (Nat.lt_of_lt_of_le fast slower) (passes.widen lower higher) kept
        (full.widen lower higher)

theorem bind {steps' : Nat} {next : α → σ → Except Fault β × σ} {after' : β → Machine → Prop}
    (first : Delivers p builtins host lo hi steps short m world locals outcome after)
    (second : ∀ a m' behind, outcome = (.ok a, behind) → after a m' →
      Delivers p builtins host lo hi steps' short m' behind locals (next a behind) after') :
    Delivers p builtins host lo hi (steps + steps') short m world locals (andThen outcome next)
      after' := by
  cases first with
  | value fast passes arrived =>
      exact ((second _ _ _ rfl arrived).of_passes passes).widen (Nat.le_refl _) (Nat.le_refl _)
        (Nat.add_le_add_right fast steps') id
  | fault fast passes kept fails =>
      exact .fault (Nat.lt_add_right steps' fast) passes kept fails
  | full tight fast passes kept full =>
      exact .full tight (Nat.lt_add_right steps' fast) passes kept full

section Single

variable {instruction : Instruction} (found : p.code[m.next]? = some instruction)
  (low : lo ≤ m.next) (high : m.next < hi)

include found low high

theorem step
    (effect : Machine.dispatch p builtins host { m with next := m.next + 1 } world instruction.op =
      (.ok (.goOn m'), behind))
    (rest : Delivers p builtins host lo hi steps short m' behind locals outcome after) :
    Delivers p builtins host lo hi (1 + steps) short m world locals outcome after :=
  rest.of_passes (.step found low high effect (.refl m' behind))

theorem single {f : α → Machine} (same : m.locals = locals)
    (effect : Machine.dispatch p builtins host { m with next := m.next + 1 } world instruction.op =
      (outcome.1.map fun a => .goOn (f a), outcome.2))
    (arrived : ∀ a, after a (f a)) :
    Delivers p builtins host lo hi 1 short m world locals outcome after := by
  rcases outcome with ⟨result, behind⟩
  cases result with
  | ok a =>
      exact .value (Nat.le_refl 1) (.step found low high effect (.refl _ _)) (arrived a)
  | error fault =>
      exact .fault Nat.zero_lt_one (.refl m world) same ⟨found, low, high, effect⟩

theorem push {r : Except Fault Value} {inner : Machine} {after : Value → Machine → Prop}
    (noCall : instruction.op.mnemonic ≠ "CALL_FUNCTION") (same : m.locals = locals)
    (tight : inner.stack.room = 0 → short)
    (effect : Machine.dispatch p builtins host { m with next := m.next + 1 } world instruction.op =
      (r.bind fun v => (inner.push? v).map .goOn, world))
    (arrived : ∀ v room, inner.stack.room = room + 1 →
      after v ⟨⟨v :: inner.stack.values, room⟩, inner.locals, inner.next⟩) :
    Delivers p builtins host lo hi 1 short m world locals (r, world) after := by
  rcases inner with ⟨⟨values, room⟩, names, next⟩
  cases r with
  | error fault =>
      exact .fault Nat.zero_lt_one (.refl m world) same ⟨found, low, high, effect⟩
  | ok v =>
      cases room with
      | zero =>
          -- The value was computed, but there is no place for it.
          exact .full (tight rfl) Nat.zero_lt_one (.refl m world) same
            ⟨instruction, values.length, ⟨found, low, high, effect⟩, noCall⟩
      | succ room =>
          exact .value (Nat.le_refl 1) (.step found low high effect (.refl _ _))
            (arrived v room rfl)

end Single

end Delivers

mutual

/-- The number of places on the stack that the code of the expression takes at most. -/
def Expr.places : Expr → Nat
  | .literal .. | .name .. => 1
  | .negate _ e | .complement _ e => e.places
  | .arith _ _ l r | .compare _ _ l r => max l.places (1 + r.places)
  | .both _ l r | .either _ l r => max l.places r.places
  | .call _ callee args => max callee.places (1 + placesOfAll args)

def placesOfAll : List Expr → Nat
  | [] => 0
  | e :: es => max e.places (1 + placesOfAll es)

end

/-- The machine with the values pushed, the last of them on top, at the instruction `next`. -/
def Machine.Pushed (m : Machine) (vs : List Value) (next : Nat) (m' : Machine) : Prop :=
  ∃ room, room + vs.length = m.stack.room ∧
    m' = ⟨⟨vs.reverse ++ m.stack.values, room⟩, m.locals, next⟩

theorem Program.Holds.inside {p : Program} {base size : Nat} {code : List Instruction}
    (holds : p.Holds base code) (length : code.length = size) (some : 0 < size) :
    base + size ≤ p.length := by
  have found := holds (size - 1) (by omega)
  have last := (Array.getElem?_eq_some_iff.mp found).1
  change base + size ≤ p.code.size
  omega

section Code

variable {p : Program} {builtins : BuiltinSet} {host : Host σ}

/-- Wherever a run comes to `base`, the next `size` instructions deliver the result of the
computation, with its values pushed; the computation looks at the bindings and may change the
world.  It takes so many places on the stack at most. -/
def Program.Computes {α : Type} (p : Program) (builtins : BuiltinSet) (host : Host σ)
    (base size places : Nat) (pushed : α → List Value)
    (result : Locals → σ → Except Fault α × σ) : Prop :=
  ∀ (m : Machine) (world : σ), m.next = base →
    Delivers p builtins host base (base + size) size (m.stack.room < places) m world m.locals
      (result m.locals world) fun a => m.Pushed (pushed a) (base + size)

theorem Machine.dispatch_call_applyTo {values : List Value} {room next : Nat} {locals : Locals}
    {world : σ} (args : List Value) (callee : Value) :
    Machine.dispatch p builtins host ⟨⟨args.reverse ++ callee :: values, room⟩, locals, next⟩ world
        (.call args.length) =
      ((callee.applyTo host args world).1.map fun v =>
        .goOn ⟨⟨v :: values, room + args.length⟩, locals, next⟩,
        (callee.applyTo host args world).2) := by
  rw [Machine.dispatch_call]
  cases callee <;> rfl

namespace Program.Computes

variable {base size size' places places' line : Nat} {op : Opcode}
  {first second : Locals → σ → Except Fault Value × σ}

theorem congr {α : Type} {pushed : α → List Value}
    {result result' : Locals → σ → Except Fault α × σ}
    (computes : p.Computes builtins host base size places pushed result)
    (same : ∀ locals world, result' locals world = result locals world) :
    p.Computes builtins host base size places pushed result' := by
  intro m world here
  rw [same]
  exact computes m world here

theorem bind {α β : Type} {pushed : α → List Value} {pushed' : β → List Value}
    {result : Locals → σ → Except Fault α × σ}
    {next : Locals → α → σ → Except Fault β × σ} {behind total : Nat}
    (computes : p.Computes builtins host base size places pushed result) (within : places ≤ total)
    (rest : ∀ (m : Machine) (a : α) (room : Nat) (before world : σ),
      room + (pushed a).length = m.stack.room → result m.locals before = (.ok a, world) →
      Delivers p builtins host base (base + size + behind) behind (m.stack.room < total)
        ⟨⟨(pushed a).reverse ++ m.stack.values, room⟩, m.locals, base + size⟩ world m.locals
        (next m.locals a world) fun b => m.Pushed (pushed' b) (base + size + behind)) :
    p.Computes builtins host base (size + behind) total pushed' fun locals world =>
      andThen (result locals world) (next locals) := by
  intro m world here
  rw [← Nat.add_assoc]
  refine ((computes m world here).widen (Nat.le_refl _) (Nat.le_add_right _ _) (Nat.le_refl _)
    fun short => Nat.lt_of_lt_of_le short within).bind ?_
  rintro a _ after ended ⟨room, enough, rfl⟩
  exact rest m a room world after enough ended

theorem unary {f : Value → Except Fault Value}
    (computes : p.Computes builtins host base size places (fun v => [v]) first)
    (found : p.code[base + size]? = some ⟨op, line⟩)
    (effect : ∀ x values room locals next world,
      Machine.dispatch p builtins host ⟨⟨x :: values, room⟩, locals, next⟩ world op =
        ((f x).map fun v => .goOn ⟨⟨v :: values, room⟩, locals, next⟩, world)) :
    p.Computes builtins host base (size + 1) places (fun v => [v]) fun locals world =>
      andThen (first locals world) fun x world => (f x, world) := by
  apply computes.bind (Nat.le_refl _)
  intro m x room _ world enough _
  refine Delivers.single found (Nat.le_add_right _ _) (Nat.lt_succ_self _) rfl (effect ..) ?_
  exact fun v => ⟨room, enough, rfl⟩

theorem binary {f : Value → Value → Except Fault Value}
    (computes : p.Computes builtins host base size places (fun v => [v]) first)
    (computes' : p.Computes builtins host (base + size) size' places' (fun v => [v]) second)
    (found : p.code[base + size + size']? = some ⟨op, line⟩)
    (effect : ∀ x y values room locals next world,
      Machine.dispatch p builtins host ⟨⟨y :: x :: values, room⟩, locals, next⟩ world op =
        ((f x y).map fun v => .goOn ⟨⟨v :: values, room + 1⟩, locals, next⟩, world)) :
    p.Computes builtins host base (size + (size' + 1)) (max places (1 + places')) (fun v => [v])
      fun locals world =>
        andThen (first locals world) fun x world =>
          andThen (second locals world) fun y world => (f x y, world) := by
  apply computes.bind (Nat.le_max_left _ _)
  intro m x room _ world enough _
  change room + 1 = m.stack.room at enough
  refine ((computes' ⟨_, _, base + size⟩ world rfl).widen (Nat.le_add_right _ _) (Nat.le_succ _)
    (Nat.le_refl _) fun short => ?_).bind ?_
  · dsimp only at short
    omega
  rintro y _ world' _ ⟨room', enough', rfl⟩
  refine Delivers.single found ?_ (Nat.lt_succ_self _) rfl (effect ..) ?_
  · exact Nat.le_trans (Nat.le_add_right _ _) (Nat.le_add_right _ _)
  · intro v
    change room' + 1 = room at enough'
    exact ⟨room' + 1, by rw [enough']; exact enough, rfl⟩

/-- The first operand stays when its truth decides; otherwise it is dropped and the second
takes its place. -/
theorem shortCircuit {truth : Bool}
    (computes : p.Computes builtins host base size places (fun v => [v]) first)
    (computes' : p.Computes builtins host (base + size + 1) size' places' (fun v => [v]) second)
    (found : p.code[base + size]? = some ⟨.jumpIfOrPop truth (base + (size + size' + 1)), line⟩)
    (inside : base + (size + size' + 1) ≤ p.length) :
    p.Computes builtins host base (size + size' + 1) (max places places') (fun v => [v])
      fun locals world =>
        andThen (first locals world) fun x world =>
          if x.isTruthy = truth then (.ok x, world) else second locals world := by
  have target : base + (size + size' + 1) = base + size + 1 + size' := by omega
  have behind : size + size' + 1 = size + (1 + size') := by omega
  rw [target] at found inside
  rw [behind]
  apply computes.bind (Nat.le_max_left _ _)
  rintro ⟨⟨values, _⟩, locals, _⟩ x room _ world rfl _
  rw [← Nat.add_assoc (base + size)]
  refine Delivers.step found (Nat.le_add_right _ _) (by dsimp only; omega)
    (Machine.dispatch_jumpIfOrPop inside) ?_
  by_cases decides : x.isTruthy = truth
  · simp only [if_pos decides]
    exact .value (Nat.zero_le _) (.refl _ _) ⟨room, rfl, rfl⟩
  · simp only [if_neg decides]
    have second := computes' ⟨⟨values, room + 1⟩, locals, base + size + 1⟩ world rfl
    exact second.widen (Nat.le_trans (Nat.le_add_right _ _) (Nat.le_add_right _ _)) (Nat.le_refl _)
      (Nat.le_refl _) fun short => Nat.lt_of_lt_of_le short (Nat.le_max_right _ _)

theorem cons {rest : Locals → σ → Except Fault (List Value) × σ}
    (computes : p.Computes builtins host base size places (fun v => [v]) first)
    (computes' : p.Computes builtins host (base + size) size' places' id rest) :
    p.Computes builtins host base (size + size') (max places (1 + places')) id fun locals world =>
      andThen (first locals world) fun v world =>
        andThen (rest locals world) fun vs world => (.ok (v :: vs), world) := by
  apply computes.bind (Nat.le_max_left _ _)
  rintro ⟨⟨values, _⟩, locals, _⟩ v room _ world rfl _
  change Delivers p builtins host _ _ (size' + 0) _ _ _ _ _ _
  refine ((computes' ⟨_, _, base + size⟩ world rfl).widen (Nat.le_add_right _ _) (Nat.le_refl _)
    (Nat.le_refl _) fun short => ?_).bind ?_
  · dsimp only [List.length_singleton] at short ⊢
    omega
  rintro vs _ world' _ ⟨room', enough', rfl⟩
  refine .value (Nat.le_refl 0) (.refl _ _) ⟨room', ?_, ?_⟩
  · change room' + vs.length = room at enough'
    change room' + (vs.length + 1) = room + 1
    omega
  · simp

theorem call {rest : Locals → σ → Except Fault (List Value) × σ}
    (computes : p.Computes builtins host base size places (fun v => [v]) first)
    (computes' : p.Computes builtins host (base + size) size' places' id rest) {count : Nat}
    (counted : ∀ locals world vs world', rest locals world = (.ok vs, world') → vs.length = count)
    (found : p.code[base + size + size']? = some ⟨.call count, line⟩) :
    p.Computes builtins host base (size + (size' + 1)) (max places (1 + places')) (fun v => [v])
      fun locals world =>
        andThen (first locals world) fun f world =>
          andThen (rest locals world) fun vs world => f.applyTo host vs world := by
  apply computes.bind (Nat.le_max_left _ _)
  rintro ⟨⟨values, _⟩, locals, _⟩ f room _ world rfl _
  refine ((computes' ⟨_, _, base + size⟩ world rfl).widen (Nat.le_add_right _ _) (Nat.le_succ _)
    (Nat.le_refl _) fun short => ?_).bind ?_
  · dsimp only [List.length_singleton] at short ⊢
    omega
  rintro vs _ world' ended ⟨room', enough', rfl⟩
  cases counted _ _ _ _ ended
  refine Delivers.single found ?_ (Nat.lt_succ_self _) rfl (Machine.dispatch_call_applyTo ..) ?_
  · exact Nat.le_trans (Nat.le_add_right _ _) (Nat.le_add_right _ _)
  · intro v
    exact ⟨room' + vs.length, congrArg (· + 1) enough', rfl⟩

end Program.Computes

theorem length_evalAll {locals : Locals} {es : List Expr} {world world' : σ} {vs : List Value}
    (ended : evalAll builtins host locals es world = (.ok vs, world')) : vs.length = es.length := by
  induction es generalizing world vs with
  | nil =>
      cases ended
      rfl
  | cons e es ih =>
      rw [evalAll] at ended
      rcases value : e.eval builtins host locals world with ⟨_ | v, between⟩
      · rw [value] at ended
        cases ended
      · rw [value, andThen_ok] at ended
        rcases values : evalAll builtins host locals es between with ⟨_ | ws, after⟩
        · rw [values] at ended
          cases ended
        · rw [values] at ended
          cases ended
          exact congrArg (· + 1) (ih values)

variable {t : Tables}

mutual

theorem Expr.computes (e : Expr) (uses : p.Uses t) (known : e.KnownTo t) {base : Nat}
    (holds : p.Holds base (e.code t base)) :
    p.Computes builtins host base e.size e.places (fun v => [v]) fun locals =>
      e.eval builtins host locals := by
  cases e with
  | literal line l =>
      intro m world here
      cases here
      refine Delivers.push (r := .ok l.value) holds.head (Nat.le_refl _) (Nat.lt_succ_self _) ?_ rfl
        ?_ (Machine.dispatch_loadConst (uses.constant known) _) ?_
      · change "LOAD_CONST" ≠ "CALL_FUNCTION"
        decide
      · exact fun none => Nat.lt_of_le_of_lt (Nat.le_of_eq none) Nat.zero_lt_one
      · exact fun v room enough => ⟨room, enough.symm, rfl⟩
  | name line id =>
      intro m world here
      cases here
      refine Delivers.push holds.head (Nat.le_refl _) (Nat.lt_succ_self _) ?_ rfl ?_
        (Machine.dispatch_loadName (uses.name known) _) ?_
      · change "LOAD_NAME" ≠ "CALL_FUNCTION"
        decide
      · exact fun none => Nat.lt_of_le_of_lt (Nat.le_of_eq none) Nat.zero_lt_one
      · exact fun v room enough => ⟨room, enough.symm, rfl⟩
  | negate line e =>
      exact (e.computes uses known holds.left).unary (holds.behind (e.length_code t _)).head
        fun _ _ _ _ _ _ => Machine.dispatch_negate
  | complement line e =>
      exact (e.computes uses known holds.left).unary (holds.behind (e.length_code t _)).head
        fun _ _ _ _ _ _ => Machine.dispatch_complement
  | arith line op l r =>
      have left := l.computes uses known.1 holds.left.left
      have right := r.computes uses known.2 (holds.left.behind (l.length_code t _))
      have found := (holds.behind (length_operands t base l r)).head
      rw [← Nat.add_assoc] at found
      exact left.binary right found fun _ _ _ _ _ _ _ => Machine.dispatch_arith
  | compare line op l r =>
      have left := l.computes uses known.1 holds.left.left
      have right := r.computes uses known.2 (holds.left.behind (l.length_code t _))
      have found := (holds.behind (length_operands t base l r)).head
      rw [← Nat.add_assoc] at found
      exact left.binary right found fun _ _ _ _ _ _ _ => Machine.dispatch_compare
  | both line l r =>
      have inside := holds.inside (Expr.length_code t _ (.both line l r)) (Nat.succ_pos _)
      have behind := holds.behind (l.length_code t _)
      have computes := (l.computes uses known.1 holds.left).shortCircuit
        (r.computes uses known.2 behind.tail) behind.head inside
      apply computes.congr
      intro locals world
      rw [Expr.eval]
      congr 1
      funext x world
      cases x.isTruthy <;> rfl
  | either line l r =>
      have inside := holds.inside (Expr.length_code t _ (.either line l r)) (Nat.succ_pos _)
      have behind := holds.behind (l.length_code t _)
      exact (l.computes uses known.1 holds.left).shortCircuit
        (r.computes uses known.2 behind.tail) behind.head inside
  | call line callee args =>
      have computes := callee.computes uses known.1 holds.left.left
      have all := computes_all args uses known.2 (holds.left.behind (callee.length_code t _))
      have length : (callee.code t base ++ codeOfAll t (base + callee.size) args).length =
          callee.size + sizeOfAll args := by
        rw [List.length_append, callee.length_code, length_codeOfAll]
      have found := (holds.behind length).head
      rw [← Nat.add_assoc] at found
      exact computes.call all (fun _ _ _ _ => length_evalAll) found

theorem computes_all (es : List Expr) (uses : p.Uses t) (known : AllKnownTo t es) {base : Nat}
    (holds : p.Holds base (codeOfAll t base es)) :
    p.Computes builtins host base (sizeOfAll es) (placesOfAll es) id fun locals =>
      evalAll builtins host locals es := by
  cases es with
  | nil =>
      intro m world here
      cases here
      exact .value (Nat.le_refl 0) (.refl m world) ⟨_, rfl, rfl⟩
  | cons e es =>
      exact (e.computes uses known.1 holds.left).cons
        (computes_all es uses known.2 (holds.behind (e.length_code t _)))

end

end Code

end LessonScript
