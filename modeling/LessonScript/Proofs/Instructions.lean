import LessonScript.Proofs.Effects

/-!
What each instruction does to a machine that shows its operands.

One equation for each instruction that scripts are compiled to, for a stack with the operands
on top.  The machine already points at the instruction behind; `next` below is that place.
-/

namespace LessonScript.Machine

variable {σ : Type} {p : Program} {builtins : BuiltinSet} {host : Host σ} {world : σ}
variable {values : List Value} {room next index target count : Nat} {locals : Locals}

theorem dispatch_loadConst {v : Value} (found : p.constants[index]? = some v) (m : Machine) :
    dispatch p builtins host m world (.loadConst index) = ((m.push? v).map .goOn, world) := by
  simp only [dispatch, perform?, Program.constant?, found]
  rfl

theorem dispatch_loadName {id : String} (found : p.names[index]? = some id) (m : Machine) :
    dispatch p builtins host m world (.loadName index) =
      ((m.locals.load? builtins id).bind fun v => (m.push? v).map .goOn, world) := by
  simp only [dispatch, perform?, Program.name?, found]
  rfl

theorem push?_of_room (v : Value) :
    push? ⟨⟨values, room + 1⟩, locals, next⟩ v = .ok ⟨⟨v :: values, room⟩, locals, next⟩ :=
  rfl

theorem push?_of_full (v : Value) :
    push? ⟨⟨values, 0⟩, locals, next⟩ v = .error (.limit (.depth values.length)) :=
  rfl

theorem dispatch_storeName {id : String} (found : p.names[index]? = some id) {v : Value} :
    dispatch p builtins host ⟨⟨v :: values, room⟩, locals, next⟩ world (.storeName index) =
      (.ok (.goOn ⟨⟨values, room + 1⟩, locals.store id v, next⟩), world) := by
  simp only [dispatch, perform?, Program.name?, found]
  rfl

theorem dispatch_arith {op : ArithOp} {x y : Value} :
    dispatch p builtins host ⟨⟨y :: x :: values, room⟩, locals, next⟩ world (.arith op) =
      ((x.arith op y).map fun v => .goOn ⟨⟨v :: values, room + 1⟩, locals, next⟩, world) := by
  change (((Value.arith op x y).bind _).bind _, world) = _
  cases x.arith op y <;> rfl

theorem dispatch_compare {op : CompareOp} {x y : Value} :
    dispatch p builtins host ⟨⟨y :: x :: values, room⟩, locals, next⟩ world (.compare op) =
      ((x.comparison op y).map fun v => .goOn ⟨⟨v :: values, room + 1⟩, locals, next⟩, world) := by
  change (((Value.comparison op x y).bind _).bind _, world) = _
  cases x.comparison op y <;> rfl

theorem dispatch_negate {x : Value} :
    dispatch p builtins host ⟨⟨x :: values, room⟩, locals, next⟩ world .negate =
      (x.negate.map fun v => .goOn ⟨⟨v :: values, room⟩, locals, next⟩, world) := by
  change ((x.negate.bind _).bind _, world) = _
  cases x.negate <;> rfl

theorem dispatch_complement {x : Value} :
    dispatch p builtins host ⟨⟨x :: values, room⟩, locals, next⟩ world .complement =
      (.ok (.goOn ⟨⟨.bool (!x.isTruthy) :: values, room⟩, locals, next⟩), world) :=
  rfl

theorem dispatch_popTop {v : Value} :
    dispatch p builtins host ⟨⟨v :: values, room⟩, locals, next⟩ world .popTop =
      (.ok (.goOn ⟨⟨values, room + 1⟩, locals, next⟩), world) :=
  rfl

theorem dispatch_returnValue {v : Value} :
    dispatch p builtins host ⟨⟨v :: values, room⟩, locals, next⟩ world .returnValue =
      (.ok (.finish v ⟨⟨values, room + 1⟩, locals, next⟩), world) :=
  rfl

theorem dispatch_getIter {v : Value} :
    dispatch p builtins host ⟨⟨v :: values, room⟩, locals, next⟩ world .getIter =
      ((iterationOf v).map fun i => .goOn ⟨⟨.iter i :: values, room⟩, locals, next⟩, world) := by
  change ((iterationOf v).bind _, world) = _
  cases iterationOf v <;> rfl

theorem callOperands?_eq (opcode : String) (args : List Value) (callee : Value) :
    callOperands? ⟨⟨args.reverse ++ callee :: values, room⟩, locals, next⟩ opcode args.length =
      .ok (callee, args, ⟨⟨values, room + args.length + 1⟩, locals, next⟩) := by
  have enough : args.length ≤ (args.reverse ++ callee :: values).length := by simp
  have taken : ((args.reverse ++ callee :: values).take args.length).reverse = args := by
    rw [List.take_left' (by simp), List.reverse_reverse]
  have left : (args.reverse ++ callee :: values).drop args.length = callee :: values :=
    List.drop_left' (by simp)
  simp only [callOperands?, Stack.popMany?, Stack.depth, if_pos enough, taken, left]
  rfl

theorem dispatch_call (args : List Value) (callee : Value) :
    dispatch p builtins host ⟨⟨args.reverse ++ callee :: values, room⟩, locals, next⟩ world
        (.call args.length) =
      match callee with
      | .builtin f =>
        ((f.call host world args).1.map fun v =>
          .goOn ⟨⟨v :: values, room + args.length⟩, locals, next⟩, (f.call host world args).2)
      | v => (.error (.call (.notCallable v.kind)), world) := by
  rw [dispatch, performCall, callOperands?_eq]
  cases callee with
  | builtin f =>
      dsimp only
      cases f.call host world args with
      | mk result after => cases result <;> rfl
  | nothing | bool | int | float | str | range | iter => rfl

theorem dispatch_jump (inside : target ≤ p.length) (m : Machine) :
    dispatch p builtins host m world (.jump target) =
      (.ok (.goOn { m with next := target }), world) := by
  simp only [dispatch, perform?, jump?, if_pos inside]
  rfl

theorem dispatch_popJumpIf (inside : target ≤ p.length) {truth : Bool} {v : Value} :
    dispatch p builtins host ⟨⟨v :: values, room⟩, locals, next⟩ world (.popJumpIf truth target) =
      (.ok (.goOn ⟨⟨values, room + 1⟩, locals, if v.isTruthy = truth then target else next⟩),
        world) := by
  change ((if v.isTruthy = truth then (jump? p _ target).bind _ else _), world) = _
  by_cases taken : v.isTruthy = truth
  · simp only [if_pos taken, jump?, if_pos inside]
    rfl
  · simp only [if_neg taken]
    rfl

theorem dispatch_jumpIfOrPop (inside : target ≤ p.length) {truth : Bool} {v : Value} :
    dispatch p builtins host ⟨⟨v :: values, room⟩, locals, next⟩ world (.jumpIfOrPop truth target) =
      (.ok (.goOn (if v.isTruthy = truth then ⟨⟨v :: values, room⟩, locals, target⟩
        else ⟨⟨values, room + 1⟩, locals, next⟩)), world) := by
  change ((if v.isTruthy = truth then (jump? p _ target).bind _ else _), world) = _
  by_cases taken : v.isTruthy = truth
  · simp only [if_pos taken, jump?, if_pos inside]
    rfl
  · simp only [if_neg taken]
    rfl

theorem dispatch_forIter_item {i after : Iteration} {item : Value}
    (advanced : i.advance? = some (item, after)) :
    dispatch p builtins host ⟨⟨.iter i :: values, room⟩, locals, next⟩ world (.forIter target) =
      ((push? ⟨⟨.iter after :: values, room⟩, locals, next⟩ item).map .goOn, world) := by
  simp only [dispatch, perform?, forIter?, Stack.peek?, Stack.replaceTop?, bind, Except.bind,
    advanced]
  rfl

theorem dispatch_forIter_end (inside : target ≤ p.length) {i : Iteration}
    (ended : i.advance? = none) :
    dispatch p builtins host ⟨⟨.iter i :: values, room⟩, locals, next⟩ world (.forIter target) =
      (.ok (.goOn ⟨⟨values, room + 1⟩, locals, target⟩), world) := by
  simp only [dispatch, perform?, forIter?, Stack.peek?, Stack.pop?, bind, Except.bind, ended, jump?,
    if_pos inside]
  rfl

end LessonScript.Machine

namespace LessonScript

/-- The states that a run comes to between its instructions. -/
inductive Program.Reaches {σ : Type} (p : Program) (builtins : BuiltinSet) (host : Host σ)
    (start : Machine) (world : σ) : Machine → σ → Prop
  | start : Reaches p builtins host start world start world
  | step {m after : Machine} {before behind : σ} {instruction : Instruction} :
      Reaches p builtins host start world m before →
      p.code[m.next]? = some instruction →
      Machine.dispatch p builtins host { m with next := m.next + 1 } before instruction.op =
        (.ok (.goOn after), behind) →
      Reaches p builtins host start world after behind

theorem Program.Reaches.trans {σ : Type} {p : Program} {builtins : BuiltinSet} {host : Host σ}
    {m m' m'' : Machine} {world world' world'' : σ}
    (first : p.Reaches builtins host m world m' world')
    (second : p.Reaches builtins host m' world' m'' world'') :
    p.Reaches builtins host m world m'' world'' := by
  induction second with
  | start => exact first
  | step _ found stepped ih => exact .step ih found stepped

end LessonScript
