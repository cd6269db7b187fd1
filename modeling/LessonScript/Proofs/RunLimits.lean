import LessonScript.Program.OfScript
import LessonScript.Proofs.ResultForms
import LessonScript.Proofs.RunSteps

/-!
What the limits of a run change.

Two machines that differ only in how much room their stacks have do the same with every
instruction, unless the smaller stack is full (`Machine.dispatch_roomier`).  So a run under wider
limits repeats the run under narrower ones, or goes on from the state in which that one met its
limit (`Program.limits_only_cut`).
-/

namespace LessonScript

/-! ### Machines with different room -/

/-- The stacks hold the same values, and the second has no less room. -/
structure Stack.Roomier (s s' : Stack) : Prop where
  values : s.values = s'.values
  room : s.room ≤ s'.room

/-- The machines differ only in the room of their stacks, and the second has no less. -/
structure Machine.Roomier (m m' : Machine) : Prop where
  stack : m.stack.Roomier m'.stack
  locals : m.locals = m'.locals
  next : m.next = m'.next

/-- What the machines go on with, or end with, differs only in the room. -/
inductive Machine.Flow.Roomier : Machine.Flow → Machine.Flow → Prop
  | goOn {m m' : Machine} (roomier : m.Roomier m') : Roomier (.goOn m) (.goOn m')
  | finish (result : Value) {m m' : Machine} (roomier : m.Roomier m') :
      Roomier (.finish result m) (.finish result m')

/-- The first computation does what the second does, unless it finds its stack full. -/
inductive Narrower {α β : Type} (R : α → β → Prop) : Except Fault α → Except Fault β → Prop
  | full (limit : Nat) (y : Except Fault β) : Narrower R (.error (.limit (.depth limit))) y
  | ok {a : α} {b : β} (related : R a b) : Narrower R (.ok a) (.ok b)
  | fault {fault : Fault} (own : fault.isLimit = false) :
      Narrower R (.error fault) (.error fault)

section Narrower

variable {α β γ δ : Type} {R : α → β → Prop} {S : γ → δ → Prop}

theorem Narrower.bind {x : Except Fault α} {y : Except Fault β} {f : α → Except Fault γ}
    {g : β → Except Fault δ} (first : Narrower R x y)
    (next : ∀ a b, R a b → Narrower S (f a) (g b)) : Narrower S (x >>= f) (y >>= g) := by
  cases first with
  | full limit => exact .full limit _
  | ok related => exact next _ _ related
  | fault own => exact .fault own

theorem Narrower.same {x : Except Fault α}
    (own : ∀ fault, x = .error fault → fault.isLimit = false) : Narrower Eq x x := by
  cases x with
  | error fault => exact .fault (own fault rfl)
  | ok a => exact .ok rfl

end Narrower

namespace Stack.Roomier

variable {s s' : Stack}

theorem push (roomier : s.Roomier s') (v : Value) : Narrower Roomier (s.push? v) (s'.push? v) := by
  have wider := roomier.room
  unfold Stack.push?
  cases more : s.room with
  | zero => exact .full _ _
  | succ room =>
      rw [more] at wider
      cases more' : s'.room with
      | zero =>
          rw [more'] at wider
          cases wider
      | succ room' =>
          rw [more'] at wider
          exact .ok ⟨by rw [roomier.values], Nat.le_of_succ_le_succ wider⟩

theorem pop (roomier : s.Roomier s') (opcode : String) :
    Narrower (fun r r' => r.1 = r'.1 ∧ r.2.Roomier r'.2) (s.pop? opcode) (s'.pop? opcode) := by
  unfold Stack.pop?
  rw [roomier.values]
  cases s'.values with
  | nil => exact .fault rfl
  | cons v values => exact .ok ⟨rfl, rfl, Nat.succ_le_succ roomier.room⟩

theorem peek (roomier : s.Roomier s') (opcode : String) :
    Narrower Eq (s.peek? opcode) (s'.peek? opcode) := by
  unfold Stack.peek?
  rw [roomier.values]
  cases s'.values with
  | nil => exact .fault rfl
  | cons v values => exact .ok rfl

theorem replaceTop (roomier : s.Roomier s') (v : Value) (opcode : String) :
    Narrower Roomier (s.replaceTop? v opcode) (s'.replaceTop? v opcode) := by
  unfold Stack.replaceTop?
  rw [roomier.values]
  cases s'.values with
  | nil => exact .fault rfl
  | cons w values => exact .ok ⟨rfl, roomier.room⟩

theorem popMany (roomier : s.Roomier s') (count : Nat) (opcode : String) :
    Narrower (fun r r' => r.1 = r'.1 ∧ r.2.Roomier r'.2) (s.popMany? count opcode)
      (s'.popMany? count opcode) := by
  unfold Stack.popMany? Stack.depth
  rw [roomier.values]
  split
  · exact .ok ⟨rfl, rfl, Nat.add_le_add_right roomier.room count⟩
  · exact .fault rfl

end Stack.Roomier

/-! ### Hosts -/

/-- The host never refuses input because of a limit. -/
def Host.LimitFree {σ : Type} (host : Host σ) : Prop :=
  ∀ world prompt fault after, host.input world prompt = (.error fault, after) →
    fault.isLimit = false

theorem Builtin.call_own {σ : Type} {host : Host σ} (free : host.LimitFree) (world : σ)
    (f : Builtin) (args : List Value) :
    ∀ fault, (f.call host world args).1 = .error fault → fault.isLimit = false := by
  intro fault failed
  have gives := f.resultOf_gives args
  unfold Builtin.call at failed
  split at failed
  · cases f with
    | print => cases failed
    | input =>
        cases answered : host.input world (promptOf args) with
        | mk answer after =>
            rw [answered] at failed
            cases answer with
            | error inner =>
                cases failed
                exact free _ _ _ _ answered
            | ok line => cases failed
    | abs | min | max | len | str | int | float | round | range =>
        dsimp only at failed
        rw [failed] at gives
        cases gives with
        | fault own => exact own
  · cases failed
    rfl

/-! ### Instructions -/

section Instructions

variable {σ : Type} {p : Program} {builtins : BuiltinSet} {host : Host σ} {m m' : Machine}

theorem Machine.Roomier.refl (m : Machine) : m.Roomier m :=
  ⟨⟨rfl, Nat.le_refl _⟩, rfl, rfl⟩

theorem Machine.Roomier.withStack (roomier : m.Roomier m') {s s' : Stack}
    (popped : s.Roomier s') :
    Machine.Roomier { m with stack := s } { m' with stack := s' } :=
  ⟨popped, roomier.locals, roomier.next⟩

theorem Machine.Roomier.push (roomier : m.Roomier m') (v : Value) :
    Narrower Machine.Roomier (m.push? v) (m'.push? v) :=
  (roomier.stack.push v).bind fun _ _ popped => .ok (roomier.withStack popped)

theorem Machine.Roomier.jump (roomier : m.Roomier m') (target : Nat) :
    Narrower Machine.Roomier (m.jump? p target) (m'.jump? p target) := by
  unfold Machine.jump?
  split
  · exact .ok ⟨roomier.stack, roomier.locals, rfl⟩
  · exact .fault rfl

theorem Value.Computes.narrower {r : Except Fault Value} (computes : Value.Computes r) :
    Narrower Eq r r := by
  cases computes with
  | value => exact .ok rfl
  | fault => exact .fault rfl

theorem Machine.Roomier.binary (roomier : m.Roomier m') (opcode : String)
    {f : Value → Value → Except Fault Value} (own : ∀ a b, Narrower Eq (f a b) (f a b)) :
    Narrower Machine.Roomier (m.binary? opcode f) (m'.binary? opcode f) := by
  refine (roomier.stack.pop opcode).bind ?_
  rintro ⟨b, _⟩ ⟨_, _⟩ ⟨rfl, popped⟩
  refine (popped.pop opcode).bind ?_
  rintro ⟨a, _⟩ ⟨_, _⟩ ⟨rfl, popped⟩
  refine (own a b).bind ?_
  rintro v _ rfl
  exact (roomier.withStack popped).push v

theorem Machine.Roomier.unary (roomier : m.Roomier m') (opcode : String)
    {f : Value → Except Fault Value} (own : ∀ a, Narrower Eq (f a) (f a)) :
    Narrower Machine.Roomier (m.unary? opcode f) (m'.unary? opcode f) := by
  refine (roomier.stack.pop opcode).bind ?_
  rintro ⟨a, _⟩ ⟨_, _⟩ ⟨rfl, popped⟩
  refine (own a).bind ?_
  rintro v _ rfl
  exact (roomier.withStack popped).push v

theorem Machine.Roomier.forIter (roomier : m.Roomier m') (opcode : String) (target : Nat) :
    Narrower Machine.Roomier (m.forIter? p opcode target) (m'.forIter? p opcode target) := by
  refine (roomier.stack.peek opcode).bind ?_
  rintro v _ rfl
  split
  · split
    · refine (roomier.stack.replaceTop _ opcode).bind ?_
      intro _ _ popped
      exact (roomier.withStack popped).push _
    · refine (roomier.stack.pop opcode).bind ?_
      rintro ⟨_, _⟩ ⟨_, _⟩ ⟨_, popped⟩
      exact (roomier.withStack popped).jump target
  · exact .fault rfl

theorem Narrower.goOn {x y : Except Fault Machine} (narrower : Narrower Machine.Roomier x y) :
    Narrower Machine.Flow.Roomier (x >>= fun m => .ok (.goOn m)) (y >>= fun m => .ok (.goOn m)) :=
  narrower.bind fun _ _ roomier => .ok (.goOn roomier)

theorem Program.constant?_narrower (index : Nat) :
    Narrower Eq (p.constant? index) (p.constant? index) := by
  unfold Program.constant?
  split
  · exact .ok rfl
  · exact .fault rfl

theorem Program.name?_narrower (index : Nat) : Narrower Eq (p.name? index) (p.name? index) := by
  unfold Program.name?
  split
  · exact .ok rfl
  · exact .fault rfl

theorem Locals.load?_narrower (locals : Locals) (id : String) :
    Narrower Eq (locals.load? builtins id) (locals.load? builtins id) := by
  unfold Locals.load?
  split
  · exact .ok rfl
  · split
    · exact .ok rfl
    · exact .fault rfl

theorem Machine.iterationOf_narrower (v : Value) : Narrower Eq (iterationOf v) (iterationOf v) := by
  unfold iterationOf
  split
  · exact .ok rfl
  · exact .ok rfl
  · exact .ok rfl
  · exact .fault rfl

theorem Machine.perform?_narrower (p : Program) (builtins : BuiltinSet) (roomier : m.Roomier m')
    (op : Opcode) :
    Narrower Flow.Roomier (m.perform? p builtins op) (m'.perform? p builtins op) := by
  cases op with
  | loadConst index =>
      refine (Program.constant?_narrower index).bind ?_
      rintro v _ rfl
      exact (roomier.push v).goOn
  | loadName index | loadFast index =>
      refine (Program.name?_narrower index).bind ?_
      rintro id _ rfl
      rw [← roomier.locals]
      refine (Locals.load?_narrower m.locals id).bind ?_
      rintro v _ rfl
      exact (roomier.push v).goOn
  | storeName index | storeFast index =>
      refine (roomier.stack.pop _).bind ?_
      rintro ⟨v, _⟩ ⟨_, _⟩ ⟨rfl, popped⟩
      refine (Program.name?_narrower index).bind ?_
      rintro id _ rfl
      exact .ok (.goOn ⟨popped, by rw [roomier.locals], roomier.next⟩)
  | arith op => exact (roomier.binary _ fun a b => (Value.arith_computes op a b).narrower).goOn
  | compare op =>
      exact (roomier.binary _ fun a b => (Value.comparison_computes op a b).narrower).goOn
  | negate => exact (roomier.unary _ fun a => a.negate_computes.narrower).goOn
  | complement => exact (roomier.unary _ fun a => .ok rfl).goOn
  | call count => exact .ok (.goOn roomier)
  | popTop =>
      refine (roomier.stack.pop _).bind ?_
      rintro ⟨_, _⟩ ⟨_, _⟩ ⟨_, popped⟩
      exact .ok (.goOn (roomier.withStack popped))
  | returnValue =>
      refine (roomier.stack.pop _).bind ?_
      rintro ⟨v, _⟩ ⟨_, _⟩ ⟨rfl, popped⟩
      exact .ok (.finish v (roomier.withStack popped))
  | jump target => exact (roomier.jump target).goOn
  | popJumpIf truth target =>
      refine (roomier.stack.pop _).bind ?_
      rintro ⟨v, _⟩ ⟨_, _⟩ ⟨rfl, popped⟩
      dsimp only
      split
      · exact ((roomier.withStack popped).jump target).goOn
      · exact .ok (.goOn (roomier.withStack popped))
  | jumpIfOrPop truth target =>
      refine (roomier.stack.peek _).bind ?_
      rintro v _ rfl
      split
      · exact (roomier.jump target).goOn
      · refine (roomier.stack.pop _).bind ?_
        rintro ⟨_, _⟩ ⟨_, _⟩ ⟨_, popped⟩
        exact .ok (.goOn (roomier.withStack popped))
  | getIter =>
      refine (roomier.stack.pop _).bind ?_
      rintro ⟨v, _⟩ ⟨_, _⟩ ⟨rfl, popped⟩
      refine (iterationOf_narrower v).bind ?_
      rintro i _ rfl
      exact ((roomier.withStack popped).push _).goOn
  | forIter target => exact (roomier.forIter _ target).goOn
  | unknown => exact .fault rfl

theorem Machine.callOperands?_narrower (roomier : m.Roomier m') (opcode : String) (count : Nat) :
    Narrower (fun r r' => r.1 = r'.1 ∧ r.2.1 = r'.2.1 ∧ r.2.2.Roomier r'.2.2)
      (m.callOperands? opcode count) (m'.callOperands? opcode count) := by
  refine (roomier.stack.popMany count opcode).bind ?_
  rintro ⟨args, _⟩ ⟨_, _⟩ ⟨rfl, popped⟩
  refine (popped.pop opcode).bind ?_
  rintro ⟨callee, _⟩ ⟨_, _⟩ ⟨rfl, popped⟩
  exact .ok ⟨rfl, rfl, roomier.withStack popped⟩

theorem Machine.performCall_own (free : host.LimitFree) {world behind : σ} {opcode : String}
    {count : Nat} {fault : Fault}
    (failed : m.performCall host world opcode count = (.error fault, behind)) :
    fault.isLimit = false := by
  cases performCall_failed failed with
  | missing | notCallable => rfl
  | @builtin f args _ _ failed => exact f.call_own free world args _ (congrArg Prod.fst failed)

theorem Machine.dispatch_limit (free : host.LimitFree) {world behind : σ} {op : Opcode}
    {limit : LimitFault}
    (failed : dispatch p builtins host m world op = (.error (.limit limit), behind)) :
    behind = world ∧ ∃ depth, limit = .depth depth := by
  unfold dispatch at failed
  split at failed
  · cases performCall_own free failed
  · obtain ⟨refused, rfl⟩ := Prod.mk.inj failed
    have narrower := perform?_narrower p builtins (Roomier.refl m) op
    rw [refused] at narrower
    cases narrower with
    | full depth => exact ⟨rfl, depth, rfl⟩
    | fault own => cases own

/-- With more room an instruction does the same to the host, and the same to the machine unless
the smaller stack is full. -/
theorem Machine.dispatch_roomier (free : host.LimitFree) (roomier : m.Roomier m') (world : σ)
    (op : Opcode) :
    Narrower Flow.Roomier (dispatch p builtins host m world op).1
        (dispatch p builtins host m' world op).1 ∧
      (dispatch p builtins host m world op).2 = (dispatch p builtins host m' world op).2 := by
  unfold dispatch
  split
  · rename_i count
    have operands := callOperands?_narrower roomier (Opcode.call count).name count
    unfold performCall
    rcases m.callOperands?_cases (Opcode.call count).name count with
      missing | ⟨callee, args, rest, taken, _⟩
    · rw [missing] at operands ⊢
      generalize m'.callOperands? (Opcode.call count).name count = y at operands
      cases operands with
      | fault own => exact ⟨.fault own, rfl⟩
    · rw [taken] at operands ⊢
      generalize m'.callOperands? (Opcode.call count).name count = y at operands
      cases operands with
      | @ok _ r related =>
          obtain ⟨callee', args', rest'⟩ := r
          obtain ⟨rfl, rfl, rests⟩ := related
          cases callee with
          | builtin f =>
              refine ⟨?_, rfl⟩
              refine (Narrower.same (f.call_own free world args)).bind ?_
              rintro v _ rfl
              exact (rests.push v).goOn
          | nothing | bool | int | float | str | range | iter => exact ⟨.fault rfl, rfl⟩
  · exact ⟨perform?_narrower p builtins roomier _, rfl⟩

theorem Machine.dispatch_goOn (free : host.LimitFree) (roomier : m.Roomier m') {world behind : σ}
    {op : Opcode} {after : Machine}
    (stepped : dispatch p builtins host m world op = (.ok (.goOn after), behind)) :
    ∃ after', dispatch p builtins host m' world op = (.ok (.goOn after'), behind) ∧
      after.Roomier after' := by
  obtain ⟨narrower, same⟩ := dispatch_roomier free roomier world op
  rw [stepped] at narrower same
  generalize dispatch p builtins host m' world op = effect at narrower same
  obtain ⟨outcome, _⟩ := effect
  cases same
  cases narrower with
  | ok related =>
      cases related with
      | goOn roomier => exact ⟨_, rfl, roomier⟩

end Instructions

/-! ### Runs -/

/-- The run ended because of a limit. -/
def RunReport.MeetsLimit {σ : Type} (report : RunReport σ) : Prop :=
  ∃ limit site, report.result = .error ⟨.limit limit, site⟩

instance {σ : Type} (report : RunReport σ) : Decidable report.MeetsLimit :=
  match same : report.result with
  | .error ⟨.limit limit, site⟩ => .isTrue ⟨limit, site, same⟩
  | .error ⟨.malformed _, _⟩ | .error ⟨.undefinedName _, _⟩ | .error ⟨.underflow _, _⟩
  | .error ⟨.unknownOpcode .., _⟩ | .error ⟨.arithmetic _, _⟩ | .error ⟨.call _, _⟩
  | .error ⟨.typeMismatch .., _⟩ | .error ⟨.unreadable .., _⟩ | .error ⟨.internal _, _⟩
  | .ok _ => .isFalse fun ⟨_, _, limited⟩ => nomatch same.symm.trans limited

/-- The report is that of a run that begins an instruction in this state, as number `n + 1`, and
meets a limit: nothing that the instruction does is in the report. -/
structure RunReport.StopsAt {σ : Type} (report : RunReport σ) (p : Program) (n : Nat) (m : Machine)
    (world : σ) : Prop where
  refused : ∃ limit instruction, p.code[m.next]? = some instruction ∧
    report.result = .error ⟨.limit limit, some (Program.siteOf instruction m.next)⟩
  steps : report.steps = n + 1
  locals : report.locals = m.locals
  world : report.world = world

namespace Program

variable {σ : Type} {p : Program} {builtins : BuiltinSet} {host : Host σ} {m m' : Machine}

theorem stateAfter_roomier (free : host.LimitFree) {n : Nat} (roomier : m.Roomier m')
    {world before : σ} {last : Machine}
    (reached : p.stateAfter builtins host n m world = some (last, before)) :
    ∃ last', p.stateAfter builtins host n m' world = some (last', before) ∧
      last.Roomier last' := by
  induction n generalizing m m' world with
  | zero =>
      cases reached
      exact ⟨m', rfl, roomier⟩
  | succ n ih =>
      obtain ⟨instruction, after, behind, found, stepped, rest⟩ :=
        exists_of_stateAfter_succ reached
      have advanced :
          Machine.Roomier { m with next := m.next + 1 } { m' with next := m'.next + 1 } :=
        ⟨roomier.stack, roomier.locals, congrArg (· + 1) roomier.next⟩
      obtain ⟨after', stepped', roomier'⟩ := Machine.dispatch_goOn free advanced stepped
      obtain ⟨last', reached', roomierLast⟩ := ih roomier' rest
      rw [roomier.next] at found
      exact ⟨last', by rw [stateAfter_of_step found stepped', reached'], roomierLast⟩

theorem Ends.roomier (free : host.LimitFree) (roomier : m.Roomier m') {budget budget' : Option Nat}
    (more : budget ≠ some 0 → budget' ≠ some 0) {steps : Nat} {world : σ} {report : RunReport σ}
    (ends : p.Ends builtins host budget steps m world report) (unlimited : ¬ report.MeetsLimit) :
    p.Ends builtins host budget' steps m' world report := by
  have advanced : Machine.Roomier { m with next := m.next + 1 } { m' with next := m'.next + 1 } :=
    ⟨roomier.stack, roomier.locals, congrArg (· + 1) roomier.next⟩
  cases ends with
  | atEnd outside =>
      rw [roomier.locals]
      rw [roomier.next] at outside
      exact .atEnd outside
  | exhausted => exact absurd ⟨_, _, rfl⟩ unlimited
  | @returned instruction v after behind found left finished =>
      obtain ⟨narrower, same⟩ := Machine.dispatch_roomier free advanced world instruction.op
      rw [finished] at narrower same
      cases effect : Machine.dispatch p builtins host { m' with next := m'.next + 1 } world
          instruction.op with
      | mk outcome behind' =>
          rw [effect] at narrower same
          cases same
          cases narrower with
          | ok related =>
              cases related with
              | finish _ roomierAfter =>
                  rw [roomierAfter.locals]
                  rw [roomier.next] at found
                  exact .returned found (more left) effect
  | @failed instruction fault behind found left refused =>
      obtain ⟨narrower, same⟩ := Machine.dispatch_roomier free advanced world instruction.op
      rw [refused] at narrower same
      cases effect : Machine.dispatch p builtins host { m' with next := m'.next + 1 } world
          instruction.op with
      | mk outcome behind' =>
          rw [effect] at narrower same
          cases same
          cases narrower with
          | full => exact absurd ⟨_, _, rfl⟩ unlimited
          | fault =>
              rw [roomier.locals, roomier.next]
              rw [roomier.next] at found
              exact .failed found (more left) effect

theorem Ends.stopsAt (free : host.LimitFree) {budget : Option Nat} {n : Nat} {world : σ}
    {report : RunReport σ}
    (ends : p.Ends builtins host budget n m world report) (limited : report.MeetsLimit) :
    report.StopsAt p n m world := by
  obtain ⟨limit, site, result⟩ := limited
  cases ends with
  | atEnd | returned => cases result
  | exhausted found => exact ⟨⟨_, _, found, rfl⟩, rfl, rfl, rfl⟩
  | failed found left refused =>
      cases result
      obtain ⟨rfl, _⟩ := Machine.dispatch_limit free refused
      exact ⟨⟨_, _, found, rfl⟩, rfl, rfl, rfl⟩

/-- A run exceeds its step budget only when it has spent it, in front of a further instruction. -/
theorem Ends.of_spent (free : host.LimitFree) {budget : Option Nat} {steps limit : Nat} {world : σ}
    {site : Option Site} {report : RunReport σ}
    (ends : p.Ends builtins host budget steps m world report)
    (limited : report.result = .error ⟨.limit (.steps limit), site⟩) :
    budget = some 0 ∧ limit = steps ∧ m.next < p.length := by
  cases ends with
  | atEnd | returned => cases limited
  | exhausted found spent =>
      cases limited
      exact ⟨spent, rfl, (Array.getElem?_eq_some_iff.mp found).1⟩
  | failed found left refused =>
      cases limited
      obtain ⟨_, depth, same⟩ := Machine.dispatch_limit free refused
      cases same

theorem endless_roomier (free : host.LimitFree) (roomier : m.Roomier m') {steps : Nat} {world : σ}
    (endless : p.runFrom? builtins host none steps m world = none) :
    p.runFrom? builtins host none steps m' world = none := by
  rw [runFrom?_none_eq_none_iff] at endless ⊢
  intro n
  obtain ⟨last, before, reached⟩ := endless n
  obtain ⟨last', reached', _⟩ := stateAfter_roomier free roomier reached
  exact ⟨last', before, reached'⟩

theorem runFrom?_roomier (free : host.LimitFree) (roomier : m.Roomier m')
    {budget budget' : Option Nat} (more : ∀ limit ∈ budget', ∃ less ∈ budget, less ≤ limit)
    {steps : Nat} {world : σ} (unlimited : ∀ report,
      p.runFrom? builtins host budget steps m world = some report → ¬ report.MeetsLimit) :
    p.runFrom? builtins host budget' steps m' world =
      p.runFrom? builtins host budget steps m world := by
  cases ended : p.runFrom? builtins host budget steps m world with
  | none =>
      cases budget with
      | some budget => cases ended
      | none =>
          cases budget' with
          | none => exact endless_roomier free roomier ended
          | some limit =>
              obtain ⟨_, none, _⟩ := more limit rfl
              cases none
  | some report =>
      obtain ⟨n, last, before, within, reached, ends⟩ := runFrom?_ends ended
      obtain ⟨last', reached', roomierLast⟩ := stateAfter_roomier free roomier reached
      have within' : ∀ limit, budget' = some limit → n ≤ limit := by
        intro limit same
        obtain ⟨less, given, le⟩ := more limit same
        exact Nat.le_trans (within less given) le
      rw [runFrom?_of_stateAfter within' steps reached']
      refine runFrom?_of_ends (ends.roomier free roomierLast ?_ (unlimited report ended))
      intro left spent
      obtain ⟨limit, same, whole⟩ := Option.map_eq_some_iff.mp spent
      obtain ⟨less, given, le⟩ := more limit same
      have inside := within less given
      exact left (by rw [given, Option.map_some, show less - n = 0 by omega])

/-- Limits cut a run short and never change it.  A run that meets no limit is the same under every
wider limits, also if it goes on forever.  A run that meets one is, up to the instruction that it
meets it in, the beginning of the run under the wider limits, and that instruction did nothing.  The
step budget is exceeded exactly when it is spent in front of a further instruction. -/
theorem limits_only_cut (p : Program) (builtins : BuiltinSet) (free : host.LimitFree) (world : σ)
    {narrow wide : Limits}
    (moreSteps : ∀ limit ∈ wide.maxSteps, ∃ less ∈ narrow.maxSteps, less ≤ limit)
    (moreDepth : narrow.maxStackDepth ≤ wide.maxStackDepth) :
    (¬ (p.run narrow builtins host world).MeetsLimit →
      p.run? wide builtins host world = p.run? narrow builtins host world ∧
      p.run wide builtins host world = p.run narrow builtins host world) ∧
    ((p.run narrow builtins host world).MeetsLimit →
      ∃ n m m' before,
        p.stateAfter builtins host n (.initial narrow) world = some (m, before) ∧
        (p.run narrow builtins host world).StopsAt p n m before ∧
        (∀ limit ∈ wide.maxSteps, n ≤ limit) ∧
        p.stateAfter builtins host n (.initial wide) world = some (m', before) ∧
        (p.run narrow builtins host world).locals = m'.locals ∧ m.Roomier m') ∧
    ((∃ limit site,
        (p.run narrow builtins host world).result = .error ⟨.limit (.steps limit), site⟩) ↔
      ∃ budget ∈ narrow.maxSteps, ∃ m before,
        p.stateAfter builtins host budget (.initial narrow) world = some (m, before) ∧
        m.next < p.length) ∧
    (∀ limit site,
      (p.run narrow builtins host world).result = .error ⟨.limit (.steps limit), site⟩ →
        narrow.maxSteps = some limit ∧ (p.run narrow builtins host world).steps = limit + 1) := by
  have start : (Machine.initial narrow).Roomier (.initial wide) := ⟨⟨rfl, moreDepth⟩, rfl, rfl⟩
  have spentAt {limit : Nat} {site : Option Site}
      (limited : (p.run narrow builtins host world).result = .error ⟨.limit (.steps limit), site⟩) :
      narrow.maxSteps = some limit ∧ (p.run narrow builtins host world).steps = limit + 1 ∧
        ∃ m before, p.stateAfter builtins host limit (.initial narrow) world = some (m, before) ∧
          m.next < p.length := by
    obtain ⟨n, m, before, within, reached, ends⟩ := run_endsWithin_of_error limited
    obtain ⟨spent, rfl, more⟩ := ends.of_spent free limited
    obtain ⟨budget, same, whole⟩ := Option.map_eq_some_iff.mp spent
    have inside := within budget same
    have all : budget = 0 + n := by omega
    rw [Nat.zero_add] at all ⊢
    exact ⟨same.trans (congrArg some all), (ends.stopsAt free ⟨_, _, limited⟩).steps.trans (by omega),
      m, before, reached, more⟩
  refine ⟨?_, ?_, ⟨?_, ?_⟩, ?_⟩
  · intro unlimited
    have same : p.run? wide builtins host world = p.run? narrow builtins host world := by
      rw [run?_eq, run?_eq]
      refine runFrom?_roomier free start moreSteps fun report ended => ?_
      rw [← run?_eq] at ended
      exact run_of_run? ended ▸ unlimited
    exact ⟨same, by rw [run_eq, run_eq, same]⟩
  · intro limited
    obtain ⟨limit, site, refused⟩ := limited
    obtain ⟨n, m, before, within, reached, ends⟩ := run_endsWithin_of_error refused
    obtain ⟨m', reached', roomier⟩ := stateAfter_roomier free start reached
    rw [Nat.zero_add] at ends
    have stops := ends.stopsAt free ⟨limit, site, refused⟩
    refine ⟨n, m, m', before, reached, stops, ?_, reached', stops.locals.trans roomier.locals,
      roomier⟩
    intro limit same
    obtain ⟨less, given, le⟩ := moreSteps limit same
    exact Nat.le_trans (within less given) le
  · rintro ⟨limit, site, limited⟩
    obtain ⟨same, _, m, before, reached, more⟩ := spentAt limited
    exact ⟨limit, same, m, before, reached, more⟩
  · rintro ⟨budget, same, last, behind, reached, more⟩
    have ended := runFrom?_of_spent reached (Array.getElem?_eq_getElem more) 0
    rw [← Option.mem_def.mp same, ← run?_eq] at ended
    rw [run_of_run? ended]
    exact ⟨_, _, rfl⟩
  · intro limit site limited
    obtain ⟨same, steps, _⟩ := spentAt limited
    exact ⟨same, steps⟩

end Program

theorem Recorder.host_limitFree : Recorder.host.LimitFree := by
  intro recorder prompt fault after answered
  unfold Recorder.host at answered
  dsimp only at answered
  split at answered <;> cases answered
  rfl

theorem Program.endless_loop_only_cut :
    ∃ p, ofSource? "n = 0\nwhile True:\n    n = n + 1\n    print(n)\n" = .ok p ∧
      Recorder.host.LimitFree ∧
      (∀ limit ∈ Limits.classroom.maxSteps,
        ∃ less ∈ Limits.maxSteps ⟨some 30, 2, false⟩, less ≤ limit) ∧
      Limits.maxStackDepth ⟨some 30, 2, false⟩ ≤ Limits.classroom.maxStackDepth ∧
      (p.run ⟨some 30, 2, false⟩ .standard Recorder.host (.ofInputs [])).MeetsLimit ∧
      ∃ n m m' before,
        p.stateAfter .standard Recorder.host n (.initial ⟨some 30, 2, false⟩) (.ofInputs []) =
          some (m, before) ∧
        (p.run ⟨some 30, 2, false⟩ .standard Recorder.host (.ofInputs [])).StopsAt p n m before ∧
        (∀ limit ∈ Limits.classroom.maxSteps, n ≤ limit) ∧
        p.stateAfter .standard Recorder.host n (.initial .classroom) (.ofInputs []) =
          some (m', before) ∧
        (p.run ⟨some 30, 2, false⟩ .standard Recorder.host (.ofInputs [])).locals = m'.locals ∧
        m.Roomier m' := by
  obtain ⟨p, compiled⟩ := exists_of_isOk "n = 0\nwhile True:\n    n = n + 1\n    print(n)\n"
    (by decide +kernel)
  have ran : ((ofSource? "n = 0\nwhile True:\n    n = n + 1\n    print(n)\n").toOption.any fun p =>
      decide (p.run ⟨some 30, 2, false⟩ .standard Recorder.host (.ofInputs [])).MeetsLimit) =
        true := by
    decide +kernel
  rw [compiled] at ran
  have limited := of_decide_eq_true ran
  have steps : ∀ limit ∈ Limits.classroom.maxSteps,
      ∃ less ∈ Limits.maxSteps ⟨some 30, 2, false⟩, less ≤ limit := by
    decide
  have depth : Limits.maxStackDepth ⟨some 30, 2, false⟩ ≤ Limits.classroom.maxStackDepth := by
    decide
  obtain ⟨_, cut, _, _⟩ := limits_only_cut p .standard Recorder.host_limitFree (.ofInputs [])
    steps depth
  exact ⟨p, compiled, Recorder.host_limitFree, steps, depth, limited, cut limited⟩

end LessonScript
