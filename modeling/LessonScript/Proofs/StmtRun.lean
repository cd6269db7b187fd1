import LessonScript.Proofs.ExprRun

/-!
The code of a statement carries the statement out.

A stretch of code carries out a computation with a completion when every run that enters it comes
to the place where the ending of the completion says, or fails in it.  A computation without a
completion, whose loops have used up their rounds, is carried out by a run that is still in the
code after as many steps: a round takes at least one.  With too short a stack the run may also find
the stack full.  The induction is on the statement, and within a loop on the number of its rounds.
-/

namespace LessonScript

variable {σ : Type}

/-- The number of places on the stack that the code of the statement takes at most.  A loop over
items keeps its iteration there. -/
def Stmt.places : Stmt → Nat
  | .skip | .breakLoop _ | .continueLoop _ => 0
  | .seq first second => max first.places second.places
  | .evaluate _ e | .assign _ _ e => e.places
  | .augment _ _ _ _ e => 1 + e.places
  | .ifThen _ test body | .whileLoop _ test body => max test.places body.places
  | .ifElse _ test body _ orelse => max test.places (max body.places orelse.places)
  | .forLoop _ _ iterable body => max iterable.places (1 + max 1 body.places)

/-- From the machine `m`, the code between `lo` and `hi` carries out a computation: the run leaves
it at a machine that fits the ending, or fails in it, with the bindings and the world of the
completion; or the run is still in it after `limit` steps, if there is no completion; or it finds
the stack full in it, if the stack is too short. -/
inductive Carries (p : Program) (builtins : BuiltinSet) (host : Host σ) (lo hi limit : Nat)
    (short : Prop) (m : Machine) (world : σ) (after : Ending → Locals → Machine → Prop) :
    Option (Completion σ) → Prop
  | leaves {n : Nat} {ending : Ending} {locals : Locals} {m' : Machine} {behind : σ}
      (passes : Passes p builtins host lo hi n m world m' behind)
      (arrived : after ending locals m') :
      Carries p builtins host lo hi limit short m world after (some ⟨ending, locals, behind⟩)
  | fails {n : Nat} {last : Machine} {before behind : σ} {instruction : Instruction} {fault : Fault}
      (passes : Passes p builtins host lo hi n m world last before)
      (fails : FailsIn p builtins host lo hi last before instruction fault behind) :
      Carries p builtins host lo hi limit short m world after
        (some ⟨.failed fault, last.locals, behind⟩)
  | runsOn {n : Nat} {last : Machine} {before : σ} (far : limit ≤ n)
      (passes : Passes p builtins host lo hi n m world last before) :
      Carries p builtins host lo hi limit short m world after none
  | full {n : Nat} {last : Machine} {before : σ} {outcome : Option (Completion σ)} (tight : short)
      (passes : Passes p builtins host lo hi n m world last before)
      (full : FullIn p builtins host lo hi last before) :
      Carries p builtins host lo hi limit short m world after outcome

namespace Carries

variable {p : Program} {builtins : BuiltinSet} {host : Host σ} {lo hi limit limit' : Nat}
  {short : Prop} {m m' : Machine} {world behind : σ} {after : Ending → Locals → Machine → Prop}
  {outcome : Option (Completion σ)}

theorem of_passes {n : Nat} (passes : Passes p builtins host lo hi n m world m' behind)
    (enough : limit ≤ n + limit')
    (carries : Carries p builtins host lo hi limit' short m' behind after outcome) :
    Carries p builtins host lo hi limit short m world after outcome := by
  cases carries with
  | leaves onward arrived => exact .leaves (passes.trans onward) arrived
  | fails onward fails => exact .fails (passes.trans onward) fails
  | runsOn far onward =>
      exact .runsOn (Nat.le_trans enough (Nat.add_le_add_left far n)) (passes.trans onward)
  | full tight onward full => exact .full tight (passes.trans onward) full

theorem widen {lo' hi' : Nat} {short' : Prop} (lower : lo' ≤ lo) (higher : hi ≤ hi')
    (less : limit' ≤ limit) (shorter : short → short')
    (carries : Carries p builtins host lo hi limit short m world after outcome) :
    Carries p builtins host lo' hi' limit' short' m world after outcome := by
  cases carries with
  | leaves passes arrived => exact .leaves (passes.widen lower higher) arrived
  | fails passes fails => exact .fails (passes.widen lower higher) (fails.widen lower higher)
  | runsOn far passes => exact .runsOn (Nat.le_trans less far) (passes.widen lower higher)
  | full tight passes full =>
      exact .full (shorter tight) (passes.widen lower higher) (full.widen lower higher)

theorem bind {after' : Ending → Locals → Machine → Prop}
    {next : Completion σ → Option (Completion σ)}
    (first : Carries p builtins host lo hi limit short m world after outcome)
    (second : ∀ ending locals m' behind, after ending locals m' →
      Carries p builtins host lo hi limit short m' behind after' (next ⟨ending, locals, behind⟩))
    (failed : ∀ fault locals world,
      next ⟨.failed fault, locals, world⟩ = some ⟨.failed fault, locals, world⟩) :
    Carries p builtins host lo hi limit short m world after' (outcome.bind next) := by
  cases first with
  | leaves passes arrived =>
      exact (second _ _ _ _ arrived).of_passes passes (Nat.le_add_left _ _)
  | fails passes fails =>
      rw [Option.bind_some, failed]
      exact .fails passes fails
  | runsOn far passes => exact .runsOn far passes
  | full tight passes full => exact .full tight passes full

theorem onward {after' : Ending → Locals → Machine → Prop}
    (first : Carries p builtins host lo hi limit short m world after outcome)
    (second : ∀ ending locals m' behind, after ending locals m' →
      Carries p builtins host lo hi limit short m' behind after'
        (some ⟨ending, locals, behind⟩)) :
    Carries p builtins host lo hi limit short m world after' outcome := by
  have carries := first.bind second fun _ _ _ => rfl
  rwa [Option.bind_fun_some] at carries

theorem value {steps : Nat} {locals : Locals} {result : Except Fault Value × σ}
    {arrives : Value → Machine → Prop} {next : Value → σ → Option (Completion σ)}
    (first : Delivers p builtins host lo hi steps short m world locals result arrives)
    (second : ∀ v m' behind, arrives v m' →
      Carries p builtins host lo hi limit short m' behind after (next v behind)) :
    Carries p builtins host lo hi limit short m world after (withValue locals result next) := by
  cases first with
  | value _ passes arrived => exact (second _ _ _ arrived).of_passes passes (Nat.le_add_left _ _)
  | fault _ passes kept fails => exact kept ▸ .fails passes fails
  | full tight _ passes _ full => exact .full tight passes full

section Single

variable {instruction : Instruction} (found : p.code[m.next]? = some instruction)
  (low : lo ≤ m.next) (high : m.next < hi)

include found low high

theorem step
    (effect : Machine.dispatch p builtins host { m with next := m.next + 1 } world instruction.op =
      (.ok (.goOn m'), behind))
    (rest : Carries p builtins host lo hi (limit - 1) short m' behind after outcome) :
    Carries p builtins host lo hi limit short m world after outcome :=
  rest.of_passes (.step found low high effect (.refl m' behind)) (by omega)

theorem failing {fault : Fault}
    (effect : Machine.dispatch p builtins host { m with next := m.next + 1 } world instruction.op =
      (.error fault, behind)) :
    Carries p builtins host lo hi limit short m world after
      (some ⟨.failed fault, m.locals, behind⟩) :=
  .fails (.refl m world) ⟨found, low, high, effect⟩

end Single

theorem done {ending : Ending} {locals : Locals} (arrived : after ending locals m) :
    Carries p builtins host lo hi limit short m world after (some ⟨ending, locals, world⟩) :=
  .leaves (.refl m world) arrived

end Carries

/-- The stack that a `break` leaves: the iteration of the loop, if it keeps one, is dropped. -/
def LoopFrame.dropped (loop : LoopFrame) (stack : Stack) : Stack :=
  if loop.keepsIteration then ⟨stack.values.tail, stack.room + 1⟩ else stack

/-- The machine in which a statement ends that is entered with the stack and stands in front of
`stop`. -/
def LoopFrame.After (loop : LoopFrame) (stack : Stack) (stop : Nat) :
    Ending → Locals → Machine → Prop
  | .normal, locals, m => m = ⟨stack, locals, stop⟩
  | .continued, locals, m => m = ⟨stack, locals, loop.start⟩
  | .broke, locals, m => m = ⟨loop.dropped stack, locals, loop.stop⟩
  | .failed _, _, _ => False

/-- Wherever a run comes to `base`, the next `size` instructions carry out the computation; the
iteration that the loop keeps is on the stack. -/
def Program.CarriesOut (p : Program) (builtins : BuiltinSet) (host : Host σ) (loop : LoopFrame)
    (limit base size places : Nat) (exec : Locals → σ → Option (Completion σ)) : Prop :=
  ∀ (m : Machine) (world : σ), m.next = base →
    (loop.keepsIteration = true → m.stack.values ≠ []) →
    Carries p builtins host base (base + size) limit (m.stack.room < places) m world
      (loop.After m.stack (base + size)) (exec m.locals world)

section Forms

variable {p : Program} {t : Tables} {builtins : BuiltinSet} {host : Host σ} {loop : LoopFrame}
  {limit base size places places' line : Nat} {e : Expr}
  {exec : Locals → σ → Option (Completion σ)}

namespace Program.CarriesOut

theorem skip : p.CarriesOut builtins host loop limit base 0 0 fun locals world =>
    some ⟨.normal, locals, world⟩ := by
  rintro ⟨stack, locals, next⟩ world rfl _
  exact .done rfl

theorem seq {size' : Nat} {exec' : Locals → σ → Option (Completion σ)}
    (first : p.CarriesOut builtins host loop limit base size places exec)
    (second : p.CarriesOut builtins host loop limit (base + size) size' places' exec') :
    p.CarriesOut builtins host loop limit base (size + size') (max places places')
      fun locals world =>
        (exec locals world).bind fun o =>
          if o.ending = .normal then exec' o.locals o.world else some o := by
  intro m world here holds
  rw [← Nat.add_assoc]
  refine ((first m world here holds).widen (Nat.le_refl _) (Nat.le_add_right _ _) (Nat.le_refl _)
    fun short => Nat.lt_of_lt_of_le short (Nat.le_max_left _ _)).bind ?_ fun _ _ _ => rfl
  rintro ending locals m' world arrived
  cases ending with
  | normal =>
      cases arrived
      exact (second ⟨_, locals, base + size⟩ world rfl holds).widen (Nat.le_add_right _ _)
        (Nat.le_refl _) (Nat.le_refl _)
        fun short => Nat.lt_of_lt_of_le short (Nat.le_max_right _ _)
  | broke => exact .done arrived
  | continued => exact .done arrived
  | failed => exact arrived.elim

theorem taking {op : Opcode} {bound : Locals → Value → Locals}
    (computes : p.Computes builtins host base size places (fun v => [v]) fun locals =>
      e.eval builtins host locals)
    (found : p.code[base + size]? = some ⟨op, line⟩)
    (effect : ∀ {v : Value} {values : List Value} {room : Nat} {locals : Locals} {next : Nat}
      {world : σ}, Machine.dispatch p builtins host ⟨⟨v :: values, room⟩, locals, next⟩ world op =
        (.ok (.goOn ⟨⟨values, room + 1⟩, bound locals v, next⟩), world)) :
    p.CarriesOut builtins host loop limit base (size + 1) places fun locals world =>
      withValue locals (e.eval builtins host locals world) fun v world =>
        some ⟨.normal, bound locals v, world⟩ := by
  rintro ⟨⟨values, room⟩, locals, next⟩ world rfl _
  refine .value ((computes ⟨⟨values, room⟩, locals, next⟩ world rfl).widen (Nat.le_refl _)
    (Nat.le_succ _) (Nat.le_refl _) id) ?_
  rintro v _ world ⟨room', rfl, rfl⟩
  exact .step found (Nat.le_add_right _ _) (Nat.lt_succ_self _) effect (.done rfl)

theorem evaluate
    (computes : p.Computes builtins host base size places (fun v => [v]) fun locals =>
      e.eval builtins host locals)
    (found : p.code[base + size]? = some ⟨.popTop, line⟩) :
    p.CarriesOut builtins host loop limit base (size + 1) places fun locals world =>
      withValue locals (e.eval builtins host locals world) fun _ world =>
        some ⟨.normal, locals, world⟩ :=
  taking computes found Machine.dispatch_popTop

theorem assign {id : String} (uses : p.Uses t) (known : id ∈ t.names)
    (computes : p.Computes builtins host base size places (fun v => [v]) fun locals =>
      e.eval builtins host locals)
    (found : p.code[base + size]? = some ⟨t.storeName id, line⟩) :
    p.CarriesOut builtins host loop limit base (size + 1) places fun locals world =>
      withValue locals (e.eval builtins host locals world) fun v world =>
        some ⟨.normal, locals.store id v, world⟩ :=
  taking computes found (Machine.dispatch_storeName (uses.name known))

theorem test {stop : Nat} {holds fails : σ → Option (Completion σ)} {lo hi : Nat} {short : Prop}
    {after : Ending → Locals → Machine → Prop} {m : Machine} {world : σ}
    (computes : p.Computes builtins host base size places (fun v => [v]) fun locals =>
      e.eval builtins host locals)
    (found : p.code[base + size]? = some ⟨.popJumpIf false stop, line⟩) (inside : stop ≤ p.length)
    (here : m.next = base) (low : lo ≤ base) (high : base + size < hi)
    (tight : m.stack.room < places → short)
    (taken : ∀ behind, Carries p builtins host lo hi (limit - 1) short
      ⟨m.stack, m.locals, base + size + 1⟩ behind after (holds behind))
    (skipped : ∀ behind, Carries p builtins host lo hi (limit - 1) short
      ⟨m.stack, m.locals, stop⟩ behind after (fails behind)) :
    Carries p builtins host lo hi limit short m world after
      (withValue m.locals (e.eval builtins host m.locals world) fun v world =>
        if v.isTruthy then holds world else fails world) := by
  refine .value ((computes m world here).widen low (Nat.le_of_lt high) (Nat.le_refl _) tight) ?_
  rcases m with ⟨⟨values, room⟩, locals, next⟩
  rintro v _ behind ⟨room', rfl, rfl⟩
  refine .step found (Nat.le_trans low (Nat.le_add_right _ _)) high
    (Machine.dispatch_popJumpIf inside) ?_
  cases truth : v.isTruthy with
  | true =>
      rw [if_neg (by simp), if_pos rfl]
      exact taken behind
  | false =>
      rw [if_pos rfl, if_neg (by simp)]
      exact skipped behind

theorem ifThen {size' : Nat}
    (computes : p.Computes builtins host base size places (fun v => [v]) fun locals =>
      e.eval builtins host locals)
    (found : p.code[base + size]? = some ⟨.popJumpIf false (base + (size + 1 + size')), line⟩)
    (inside : base + (size + 1 + size') ≤ p.length)
    (body : p.CarriesOut builtins host loop limit (base + size + 1) size' places' exec) :
    p.CarriesOut builtins host loop limit base (size + 1 + size') (max places places')
      fun locals world =>
        withValue locals (e.eval builtins host locals world) fun v world =>
          if v.isTruthy then exec locals world else some ⟨.normal, locals, world⟩ := by
  have stop : base + (size + 1 + size') = base + size + 1 + size' := by omega
  intro m world here holds
  refine test computes found inside here (Nat.le_refl _) (by omega)
    (fun short => Nat.lt_of_lt_of_le short (Nat.le_max_left _ _)) ?_ fun behind => .done rfl
  intro behind
  rw [stop]
  exact (body ⟨_, _, base + size + 1⟩ behind rfl holds).widen (by omega) (Nat.le_refl _)
    (Nat.sub_le _ _) fun short => Nat.lt_of_lt_of_le short (Nat.le_max_right _ _)

theorem ifElse {size₁ size₂ places'' elseLine : Nat} {exec' : Locals → σ → Option (Completion σ)}
    (computes : p.Computes builtins host base size places (fun v => [v]) fun locals =>
      e.eval builtins host locals)
    (found : p.code[base + size]? = some ⟨.popJumpIf false (base + (size + 1 + size₁ + 1)), line⟩)
    (inside : base + (size + 1 + size₁ + 1 + size₂) ≤ p.length)
    (body : p.CarriesOut builtins host loop limit (base + size + 1) size₁ places' exec)
    (exit : p.code[base + size + 1 + size₁]? =
      some ⟨.jump (base + (size + 1 + size₁ + 1) + size₂), elseLine⟩)
    (orelse : p.CarriesOut builtins host loop limit (base + (size + 1 + size₁ + 1)) size₂ places''
      exec') :
    p.CarriesOut builtins host loop limit base (size + 1 + size₁ + 1 + size₂)
      (max places (max places' places'')) fun locals world =>
        withValue locals (e.eval builtins host locals world) fun v world =>
          if v.isTruthy then exec locals world else exec' locals world := by
  rw [Nat.add_assoc base (size + 1 + size₁ + 1) size₂] at exit
  intro m world here holds
  refine test computes found (by omega) here (Nat.le_refl _) (by omega) (by omega) ?_ ?_
  · intro behind
    have carries := body ⟨m.stack, m.locals, base + size + 1⟩ behind rfl holds
    refine (carries.widen (by omega) (by omega) (Nat.sub_le _ _)
      fun short => Nat.lt_of_lt_of_le short (by omega)).onward ?_
    rintro ending locals m' behind arrived
    cases ending with
    | normal =>
        cases arrived
        exact .step exit (by dsimp only; omega) (by dsimp only; omega)
          (Machine.dispatch_jump inside _) (.done rfl)
    | broke => exact .done arrived
    | continued => exact .done arrived
    | failed => exact arrived.elim
  · intro behind
    rw [← Nat.add_assoc base]
    exact (orelse ⟨_, _, _⟩ behind rfl holds).widen (by omega) (by omega) (Nat.sub_le _ _)
      fun short => Nat.lt_of_lt_of_le short (by omega)

theorem breakLoop (inside : loop.stop ≤ p.length)
    (holds : p.Holds base ((Stmt.breakLoop line).code t loop base)) :
    p.CarriesOut builtins host loop limit base ((Stmt.breakLoop line).size loop.keepsIteration) 0
      fun locals world => some ⟨.broke, locals, world⟩ := by
  rintro ⟨⟨values, room⟩, locals, next⟩ world rfl keeps
  dsimp only at holds keeps ⊢
  cases kept : loop.keepsIteration with
  | true =>
      obtain ⟨v, values, rfl⟩ := List.exists_cons_of_ne_nil (keeps kept)
      rw [Stmt.code, if_pos kept] at holds
      refine .step holds.head (Nat.le_refl _) (by simp [Stmt.size]) Machine.dispatch_popTop ?_
      refine .step holds.tail.head (Nat.le_succ _) (by simp [Stmt.size])
        (Machine.dispatch_jump inside _) (.done ?_)
      simp [LoopFrame.After, LoopFrame.dropped, kept]
  | false =>
      rw [Stmt.code, kept] at holds
      refine .step holds.head (Nat.le_refl _) (by simp [Stmt.size])
        (Machine.dispatch_jump inside _) (.done ?_)
      simp [LoopFrame.After, LoopFrame.dropped, kept]

theorem continueLoop (inside : loop.start ≤ p.length)
    (found : p.code[base]? = some ⟨.jump loop.start, line⟩) :
    p.CarriesOut builtins host loop limit base 1 0 fun locals world =>
      some ⟨.continued, locals, world⟩ := by
  rintro ⟨stack, locals, next⟩ world rfl _
  exact .step found (Nat.le_refl _) (Nat.lt_succ_self _) (Machine.dispatch_jump inside _)
    (.done rfl)

/-- Behind the body of a loop the run starts another round, unless the body was left. -/
theorem round {inner : LoopFrame} {stack : Stack} {lo hi behind : Nat} {short : Prop} {m : Machine}
    {world : σ} {after : Ending → Locals → Machine → Prop} {outcome : Option (Completion σ)}
    {next : Locals → σ → Option (Completion σ)}
    (carries : Carries p builtins host lo hi limit short m world (inner.After stack behind) outcome)
    (again : p.code[behind]? = some ⟨.jump inner.start, line⟩) (low : lo ≤ behind)
    (high : behind < hi) (inside : inner.start ≤ p.length)
    (restart : ∀ locals world, Carries p builtins host lo hi limit short
      ⟨stack, locals, inner.start⟩ world after (next locals world))
    (leave : ∀ locals, after .normal locals ⟨inner.dropped stack, locals, inner.stop⟩) :
    Carries p builtins host lo hi limit short m world after
      (outcome.bind fun o => afterRound o next) := by
  refine carries.bind ?_ fun _ _ _ => rfl
  rintro ending locals m' world arrived
  cases ending with
  | normal =>
      cases arrived
      exact .step again low high (Machine.dispatch_jump inside _)
        ((restart locals world).widen (Nat.le_refl _) (Nat.le_refl _) (Nat.sub_le _ _) id)
  | continued =>
      cases arrived
      exact restart locals world
  | broke =>
      cases arrived
      exact .done (leave locals)
  | failed => exact arrived.elim

/-- A loop with a condition: every round takes a step, so a run that has used up the rounds has
taken as many steps. -/
theorem repeatWhile {size' : Nat}
    (computes : p.Computes builtins host base size places (fun v => [v]) fun locals =>
      e.eval builtins host locals)
    (found : p.code[base + size]? = some ⟨.popJumpIf false (base + (size + 1 + size' + 1)), line⟩)
    (inside : base + (size + 1 + size' + 1) ≤ p.length)
    (body : p.CarriesOut builtins host ⟨base, base + (size + 1 + size' + 1), false⟩ limit
      (base + size + 1) size' places' exec)
    (again : p.code[base + size + 1 + size']? = some ⟨.jump base, line⟩) (rounds : Nat)
    (enough : rounds ≤ limit) :
    p.CarriesOut builtins host loop rounds base (size + 1 + size' + 1) (max places places')
      (LessonScript.repeatWhile (fun locals => e.eval builtins host locals) exec rounds) := by
  induction rounds with
  | zero => exact fun m world _ _ => .runsOn (Nat.zero_le 0) (.refl m world)
  | succ rounds ih =>
      intro m world here holds
      refine test computes found inside here (Nat.le_refl _) (by omega)
        (fun short => Nat.lt_of_lt_of_le short (Nat.le_max_left _ _)) ?_ fun behind => .done rfl
      intro behind
      have carries := body ⟨m.stack, m.locals, base + size + 1⟩ behind rfl nofun
      refine round (carries.widen (by omega) (by omega) (by omega)
        fun short => Nat.lt_of_lt_of_le short (Nat.le_max_right _ _)) again (by omega) (by omega)
        (Nat.le_trans (Nat.le_add_right _ _) inside) ?_ fun _ => rfl
      intro locals world
      exact ih (by omega) ⟨m.stack, locals, base⟩ world rfl holds

/-- A loop over the items of an iteration that lies on the stack. -/
theorem repeatFor {start stop size' : Nat} {id : String} (uses : p.Uses t) (known : id ∈ t.names)
    (advances : p.code[start]? = some ⟨.forIter stop, line⟩)
    (store : p.code[start + 1]? = some ⟨t.storeName id, line⟩)
    (body : p.CarriesOut builtins host ⟨start, stop, true⟩ limit (start + 2) size' places exec)
    (again : p.code[start + 2 + size']? = some ⟨.jump start, line⟩)
    (behind : stop = start + 2 + size' + 1) (inside : stop ≤ p.length) (rounds : Nat)
    (enough : rounds ≤ limit) (i : Iteration) (values : List Value) (room : Nat) (locals : Locals)
    (world : σ) :
    Carries p builtins host start stop rounds (room < max 1 places)
      ⟨⟨.iter i :: values, room⟩, locals, start⟩ world (loop.After ⟨values, room + 1⟩ stop)
      (LessonScript.repeatFor id exec rounds i locals world) := by
  induction rounds generalizing i locals world with
  | zero => exact .runsOn (Nat.zero_le 0) (.refl _ world)
  | succ rounds ih =>
      rw [LessonScript.repeatFor]
      cases advanced : i.advance? with
      | none =>
          exact .step advances (Nat.le_refl _) (by dsimp only; omega)
            (Machine.dispatch_forIter_end inside advanced) (.done rfl)
      | some found =>
          rcases found with ⟨item, rest⟩
          -- The item goes on top of the advanced iteration, if there is a place for it.
          have pushed : Delivers p builtins host start stop 1 (room < max 1 places)
              ⟨⟨.iter i :: values, room⟩, locals, start⟩ world locals (.ok item, world)
              fun v m => ∃ room', room = room' + 1 ∧
                m = ⟨⟨v :: .iter rest :: values, room'⟩, locals, start + 1⟩ := by
            have effect : Machine.dispatch p builtins host
                ⟨⟨.iter i :: values, room⟩, locals, start + 1⟩ world (.forIter stop) =
                  (Except.bind (.ok item) fun v =>
                    (Machine.push? ⟨⟨.iter rest :: values, room⟩, locals, start + 1⟩ v).map .goOn,
                    world) := Machine.dispatch_forIter_item advanced
            refine Delivers.push (m := ⟨⟨.iter i :: values, room⟩, locals, start⟩) advances
              (Nat.le_refl _) ?_ ?_ rfl ?_ effect ?_
            · change start < stop
              omega
            · change "FOR_ITER" ≠ "CALL_FUNCTION"
              decide
            · dsimp only
              omega
            · exact fun v room' enough => ⟨room', enough, rfl⟩
          change Carries p builtins host start stop _ _ _ _ _ (withValue locals (.ok item, world)
            fun item world => (exec (locals.store id item) world).bind fun round =>
              afterRound round (LessonScript.repeatFor id exec rounds rest))
          refine .value pushed ?_
          rintro v _ world ⟨room', rfl, rfl⟩
          refine .step store (Nat.le_succ _) (by dsimp only; omega)
            (Machine.dispatch_storeName (uses.name known)) ?_
          have carries := body ⟨⟨.iter rest :: values, room' + 1⟩, locals.store id v, start + 2⟩
            world rfl fun _ => nofun
          refine round (carries.widen (by omega) (by omega) (by omega) (by dsimp only; omega)) again
            (by omega) (by omega) (by dsimp only; omega) ?_ fun _ => rfl
          exact ih (by omega) rest

theorem forLoop {size' : Nat} {id : String} (uses : p.Uses t) (known : id ∈ t.names)
    (computes : p.Computes builtins host base size places (fun v => [v]) fun locals =>
      e.eval builtins host locals)
    (iterates : p.code[base + size]? = some ⟨.getIter, line⟩)
    (advances : p.code[base + size + 1]? =
      some ⟨.forIter (base + (size + 3 + size' + 1)), line⟩)
    (store : p.code[base + size + 1 + 1]? = some ⟨t.storeName id, line⟩)
    (body : p.CarriesOut builtins host
      ⟨base + size + 1, base + (size + 3 + size' + 1), true⟩ limit (base + size + 1 + 2) size'
      places' exec)
    (again : p.code[base + size + 1 + 2 + size']? = some ⟨.jump (base + size + 1), line⟩)
    (inside : base + (size + 3 + size' + 1) ≤ p.length) :
    p.CarriesOut builtins host loop limit base (size + 3 + size' + 1)
      (max places (1 + max 1 places')) fun locals world =>
        withValue locals (e.eval builtins host locals world) fun v world =>
          match Machine.iterationOf v with
          | .ok i => LessonScript.repeatFor id exec limit i locals world
          | .error fault => some ⟨.failed fault, locals, world⟩ := by
  rintro ⟨⟨values, room⟩, locals, next⟩ world rfl _
  refine .value ((computes ⟨⟨values, room⟩, locals, next⟩ world rfl).widen (Nat.le_refl _)
    (by omega) (Nat.le_refl _) fun short => Nat.lt_of_lt_of_le short (Nat.le_max_left _ _)) ?_
  rintro v _ world ⟨room', rfl, rfl⟩
  change Carries p builtins host _ _ _ _ ⟨⟨v :: values, room'⟩, locals, next + size⟩ world _ _
  have effect : Machine.dispatch p builtins host ⟨⟨v :: values, room'⟩, locals, next + size + 1⟩
      world .getIter = _ := Machine.dispatch_getIter
  cases iteration : Machine.iterationOf v with
  | error fault =>
      rw [iteration] at effect
      exact .failing iterates (Nat.le_add_right _ _) (by dsimp only; omega) effect
  | ok i =>
      rw [iteration] at effect
      refine .step iterates (Nat.le_add_right _ _) (by dsimp only; omega) effect ?_
      exact (repeatFor uses known advances store body again (by omega) inside limit
        (Nat.le_refl _) i values room' locals world).widen (by omega) (Nat.le_refl _)
        (Nat.sub_le _ _) (by simp only [List.length_singleton]; omega)

end Program.CarriesOut

theorem withValue_andThen {locals : Locals} {result : Except Fault Value × σ}
    (f : Value → σ → Except Fault Value × σ) (next : Value → σ → Option (Completion σ)) :
    withValue locals (andThen result f) next =
      withValue locals result fun v world => withValue locals (f v world) next := by
  rcases result with ⟨value, world⟩
  cases value <;> rfl

/-- An augmented assignment has the code and the meaning of an assignment of a sum, a difference
and so on, in which the old value stands first. -/
theorem Stmt.exec_augment {id : String} {op : ArithOp} {opLine rounds : Nat} {locals : Locals}
    {world : σ} :
    (Stmt.augment line id op opLine e).exec builtins host rounds locals world =
      (Stmt.assign line id (.arith opLine op (.name line id) e)).exec builtins host rounds locals
        world := by
  rw [Stmt.exec, Stmt.exec, Expr.eval, withValue_andThen]
  simp only [Expr.eval, withValue_andThen]

theorem Stmt.code_augment {id : String} {op : ArithOp} {opLine : Nat} :
    (Stmt.augment line id op opLine e).code t loop base =
      (Stmt.assign line id (.arith opLine op (.name line id) e)).code t loop base := by
  simp [Stmt.code, Expr.code, Expr.size]

theorem Stmt.size_augment {id : String} {op : ArithOp} {opLine : Nat} {keeps : Bool} :
    (Stmt.augment line id op opLine e).size keeps =
      (Stmt.assign line id (.arith opLine op (.name line id) e)).size keeps := by
  simp only [Stmt.size, Expr.size]
  omega

theorem Stmt.places_augment {id : String} {op : ArithOp} {opLine : Nat} :
    (Stmt.augment line id op opLine e).places =
      (Stmt.assign line id (.arith opLine op (.name line id) e)).places := by
  simp only [Stmt.places, Expr.places]
  omega

theorem Stmt.carriesOut (s : Stmt) (uses : p.Uses t) (known : s.KnownTo t)
    (holds : p.Holds base (s.code t loop base)) (start : loop.start ≤ p.length)
    (stop : loop.stop ≤ p.length) :
    p.CarriesOut builtins host loop limit base (s.size loop.keepsIteration) s.places
      (s.exec builtins host limit) := by
  have length := s.length_code t loop base
  induction s generalizing loop base with
  | skip => exact .skip
  | seq first second ihFirst ihSecond =>
      have left := ihFirst known.1 holds.left start stop (first.length_code ..)
      have behind := holds.behind (first.length_code t loop base)
      exact left.seq (ihSecond known.2 behind start stop (second.length_code ..))
  | evaluate line e =>
      exact .evaluate (e.computes uses known holds.left) (holds.behind (e.length_code t base)).head
  | assign line id e =>
      exact .assign uses known.1 (e.computes uses known.2 holds.left)
        (holds.behind (e.length_code t base)).head
  | augment line id op opLine e =>
      rw [code_augment] at holds
      rw [size_augment, places_augment]
      -- The variable is read before the expression, as the left operand of the operator.
      have sum : (Expr.arith opLine op (.name line id) e).KnownTo t := ⟨known.1, known.2⟩
      intro m world here keeps
      rw [exec_augment]
      exact Program.CarriesOut.assign uses known.1 (Expr.computes _ uses sum holds.left)
        (holds.behind (Expr.length_code t base _)).head m world here keeps
  | breakLoop line => exact .breakLoop stop holds
  | continueLoop line => exact .continueLoop start holds.head
  | ifThen line test body ih =>
      have inside := holds.inside length (by simp only [Stmt.size]; omega)
      have behind := holds.behind (test.length_code t base)
      exact .ifThen (test.computes uses known.1 holds.left) behind.head inside
        (ih known.2 behind.tail start stop (body.length_code ..))
  | ifElse line test body elseLine orelse ihBody ihElse =>
      have inside := holds.inside length (by simp only [Stmt.size]; omega)
      have behind := holds.behind (test.length_code t base)
      have behindBody := behind.tail.behind (body.length_code t loop _)
      have second := behindBody.tail
      rw [show base + test.size + 1 + body.size loop.keepsIteration + 1 =
        base + (test.size + 1 + body.size loop.keepsIteration + 1) by omega] at second
      exact .ifElse (test.computes uses known.1 holds.left) behind.head inside
        (ihBody known.2.1 behind.tail.left start stop (body.length_code ..)) behindBody.head
        (ihElse known.2.2 second start stop (orelse.length_code ..))
  | whileLoop line test body ih =>
      have inside := holds.inside length (by simp only [Stmt.size]; omega)
      have behind := holds.behind (test.length_code t base)
      have onStart : base ≤ p.length := Nat.le_trans (Nat.le_add_right _ _) inside
      have carries := ih known.2 behind.tail.left onStart inside (body.length_code ..)
      exact .repeatWhile (test.computes uses known.1 holds.left) behind.head inside carries
        (behind.tail.behind (body.length_code ..)).head limit (Nat.le_refl _)
  | forLoop line id iterable body ih =>
      have inside := holds.inside length (by simp only [Stmt.size]; omega)
      have behind := holds.behind (iterable.length_code t base)
      have onStart : base + iterable.size + 1 ≤ p.length := by
        simp only [Stmt.size] at inside
        omega
      have carries := ih known.2.2 behind.tail.tail.tail.left onStart inside (body.length_code ..)
      exact .forLoop uses known.1 (iterable.computes uses known.2.1 holds.left) behind.head
        behind.tail.head behind.tail.tail.head carries
        (behind.tail.tail.tail.behind (body.length_code ..)).head inside

end Forms

end LessonScript
