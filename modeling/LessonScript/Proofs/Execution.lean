import LessonScript.Proofs.Acceptance
import LessonScript.Proofs.StmtRun

/-!
The run of a compiled script agrees with the meaning of the script.

Outside all loops a statement ends normally or with a fault.  So the run of a program leaves the
code of the statements at its end, where it returns `None`, or stops inside with the fault.
-/

namespace LessonScript

variable {σ : Type}

/-- Every `break` and `continue` of the statement stands in a loop of the statement. -/
def Stmt.Closed : Stmt → Prop
  | .breakLoop _ | .continueLoop _ => False
  | .seq first second => first.Closed ∧ second.Closed
  | .ifThen _ _ body => body.Closed
  | .ifElse _ _ body _ orelse => body.Closed ∧ orelse.Closed
  | .skip | .evaluate .. | .assign .. | .augment .. | .whileLoop .. | .forLoop .. => True

def Ending.Final : Ending → Prop
  | .normal | .failed _ => True
  | .broke | .continued => False

section Final

variable {builtins : BuiltinSet} {host : Host σ} {o : Completion σ} {locals : Locals} {world : σ}

theorem withValue_final {result : Except Fault Value × σ} {next : Value → σ → Option (Completion σ)}
    (final : ∀ v world, next v world = some o → o.ending.Final)
    (ended : withValue locals result next = some o) : o.ending.Final := by
  rcases result with ⟨value, world⟩
  cases value with
  | error fault =>
      cases ended
      exact trivial
  | ok v => exact final v world ended

theorem afterRound_final {round : Completion σ} {again : Locals → σ → Option (Completion σ)}
    (final : ∀ locals world, again locals world = some o → o.ending.Final)
    (ended : afterRound round again = some o) : o.ending.Final := by
  unfold afterRound at ended
  split at ended
  · exact final _ _ ended
  · exact final _ _ ended
  · cases ended
    exact trivial
  · rename_i fault failed
    cases ended
    rw [failed]
    exact trivial

theorem repeatWhile_final {test : Locals → σ → Except Fault Value × σ}
    {body : Locals → σ → Option (Completion σ)} (rounds : Nat)
    (ended : repeatWhile test body rounds locals world = some o) : o.ending.Final := by
  induction rounds generalizing locals world with
  | zero => cases ended
  | succ rounds ih =>
      refine withValue_final ?_ ended
      intro v world ended
      split at ended
      · obtain ⟨round, _, after⟩ := Option.bind_eq_some_iff.mp ended
        exact afterRound_final (fun _ _ => ih) after
      · cases ended
        exact trivial

theorem repeatFor_final {id : String} {body : Locals → σ → Option (Completion σ)} (rounds : Nat)
    {i : Iteration} (ended : repeatFor id body rounds i locals world = some o) :
    o.ending.Final := by
  induction rounds generalizing i locals world with
  | zero => cases ended
  | succ rounds ih =>
      unfold repeatFor at ended
      split at ended
      · cases ended
        exact trivial
      · obtain ⟨round, _, after⟩ := Option.bind_eq_some_iff.mp ended
        exact afterRound_final (fun _ _ => ih) after

theorem Stmt.exec_final {rounds : Nat} {s : Stmt} (closed : s.Closed)
    (ended : s.exec builtins host rounds locals world = some o) : o.ending.Final := by
  induction s generalizing locals world o with
  | skip =>
      cases ended
      exact trivial
  | breakLoop | continueLoop => exact closed.elim
  | seq first second ihFirst ihSecond =>
      obtain ⟨middle, run, after⟩ := Option.bind_eq_some_iff.mp ended
      split at after
      · exact ihSecond closed.2 after
      · cases after
        exact ihFirst closed.1 run
  | evaluate | assign =>
      refine withValue_final ?_ ended
      intro v world ended
      cases ended
      exact trivial
  | augment =>
      refine withValue_final ?_ ended
      intro x world ended
      refine withValue_final ?_ ended
      intro y world ended
      refine withValue_final ?_ ended
      intro v world ended
      cases ended
      exact trivial
  | ifThen _ test body ih =>
      refine withValue_final ?_ ended
      intro v world ended
      split at ended
      · exact ih closed ended
      · cases ended
        exact trivial
  | ifElse _ test body _ orelse ihBody ihElse =>
      refine withValue_final ?_ ended
      intro v world ended
      split at ended
      · exact ihBody closed.1 ended
      · exact ihElse closed.2 ended
  | whileLoop => exact repeatWhile_final _ ended
  | forLoop =>
      refine withValue_final ?_ ended
      intro v world ended
      split at ended
      · exact repeatFor_final _ ended
      · cases ended
        exact trivial

end Final

def Part.Closed : Part → Prop
  | .simple s | .statement s | .statements s | .suite s => s.Closed
  | .branches none => True
  | .branches (some (_, s)) => s.Closed

theorem conditional_closed {line : Nat} {test : Expr} {body : Stmt} {rest : Option (Nat × Stmt)}
    (closedBody : body.Closed) (closedRest : (Part.branches rest).Closed) :
    (StmtReader.conditional line test body rest).Closed := by
  cases rest with
  | none => exact closedBody
  | some branch => exact ⟨closedBody, closedRest⟩

theorem Forms.closed {n : Nat} {inLoop : Bool} {part : Part} {ts : List Token}
    (forms : Forms n inLoop part ts) (outside : inLoop = false) : part.Closed := by
  induction forms with
  | pass | evaluate | assign | augment | noBranch | whileLoop | forLoop | nothing => exact trivial
  | breakLoop | continueLoop => cases outside
  | line _ _ ih => exact ih outside
  | conditional _ _ _ _ ihSuite ihBranches =>
      exact conditional_closed (ihSuite outside) (ihBranches outside)
  | elifBranch _ _ _ _ ihSuite ihBranches =>
      exact conditional_closed (ihSuite outside) (ihBranches outside)
  | elseBranch _ _ ih => exact ih outside
  | inline _ _ _ ih => exact ih outside
  | block _ _ _ _ _ ih => exact ih outside
  | more _ _ ih ih' => exact ⟨ih outside, ih' outside⟩

/-- The report tells of a run that did what the completion says: it left the same bindings and
the same world, and returned `None` after a normal end or stopped with the same fault. -/
def RunReport.Agrees (report : RunReport σ) (o : Completion σ) : Prop :=
  report.locals = o.locals ∧ report.world = o.world ∧
    match o.ending with
    | .normal => report.result = .ok .nothing
    | .failed fault => ∃ site, report.result = .error ⟨fault, site⟩
    | .broke | .continued => False

/-- The run stopped because of its limits: it began more steps than it may, or it found the stack
full.  A call frees the place for its result, so a limit fault of a call within the step limit comes
from the host and not from here. -/
def RunReport.Trips (report : RunReport σ) (limits : Limits) : Prop :=
  ∃ limit site, report.result = .error ⟨.limit limit, some site⟩ ∧
    ((∃ most ∈ limits.maxSteps, most < report.steps) ∨ site.opcode ≠ some "CALL_FUNCTION")

theorem RunReport.not_trips_of_isOk {report : RunReport σ} (ok : report.result.isOk = true)
    (limits : Limits) : ¬ report.Trips limits := by
  rintro ⟨limit, site, failed, _⟩
  rw [failed] at ok
  cases ok

/-- From the machine `m`, a run comes to an instruction that ends it in agreement with the
completion; or it is still going after `rounds` steps, if there is no completion; or it finds the
stack full, if the stack is too short. -/
inductive Program.Concludes (p : Program) (builtins : BuiltinSet) (host : Host σ) (rounds : Nat)
    (short : Prop) (m : Machine) (world : σ) : Option (Completion σ) → Prop
  | ends {n : Nat} {last : Machine} {before : σ} {instruction : Instruction} {report : RunReport σ}
      {o : Completion σ} (passes : Passes p builtins host 0 p.length n m world last before)
      (found : p.code[last.next]? = some instruction)
      (ends : p.Ends builtins host none n last before report) (agrees : report.Agrees o) :
      Concludes p builtins host rounds short m world (some o)
  | runsOn {n : Nat} {last : Machine} {before : σ} (far : rounds ≤ n)
      (passes : Passes p builtins host 0 p.length n m world last before) :
      Concludes p builtins host rounds short m world none
  | full {n : Nat} {last : Machine} {before : σ} {outcome : Option (Completion σ)} (tight : short)
      (passes : Passes p builtins host 0 p.length n m world last before)
      (full : FullIn p builtins host 0 p.length last before) :
      Concludes p builtins host rounds short m world outcome

section Run

variable {p : Program} {builtins : BuiltinSet} {host : Host σ}

theorem FailsIn.ends {lo hi n : Nat} {m : Machine} {world behind : σ} {instruction : Instruction}
    {fault : Fault} (fails : FailsIn p builtins host lo hi m world instruction fault behind) :
    p.Ends builtins host none n m world
      ⟨.error ⟨fault, some (Program.siteOf instruction m.next)⟩, n + 1, m.locals, behind⟩ :=
  .failed fails.found (Option.some_ne_none 0).symm fails.refused

theorem Program.concludes_at_end {t : Tables} (uses : p.Uses t)
    (known : Literal.nothing ∈ t.literals) {line n rounds : Nat} {short : Prop} {start m : Machine}
    {world before : σ} (ending : p.Holds m.next [⟨t.load .nothing, line⟩, ⟨.returnValue, line⟩])
    (tight : m.stack.room < 1 → short)
    (passes : Passes p builtins host 0 p.length n start before m world) :
    p.Concludes builtins host rounds short start before (some ⟨.normal, m.locals, world⟩) := by
  have inside : m.next + 2 ≤ p.length := Program.Holds.inside ending rfl Nat.zero_lt_two
  have pushed : Delivers p builtins host 0 p.length 1 short m world m.locals (.ok .nothing, world)
      fun v m' => ∃ room, m' = ⟨⟨v :: m.stack.values, room⟩, m.locals, m.next + 1⟩ := by
    refine Delivers.push ending.head (Nat.zero_le _) (by omega) ?_ rfl ?_
      (Machine.dispatch_loadConst (uses.constant known) _) ?_
    · change "LOAD_CONST" ≠ "CALL_FUNCTION"
      decide
    · exact fun none => tight (Nat.lt_of_le_of_lt (Nat.le_of_eq none) Nat.zero_lt_one)
    · exact fun v room _ => ⟨room, rfl⟩
  generalize same : ((Except.ok Value.nothing : Except Fault Value), world) = outcome at pushed
  cases pushed with
  | value _ onward arrived =>
      obtain ⟨room, rfl⟩ := arrived
      cases same
      exact .ends (passes.trans onward) ending.tail.head
        (.returned ending.tail.head (Option.some_ne_none 0).symm Machine.dispatch_returnValue)
        ⟨rfl, rfl, rfl⟩
  | fault => cases same
  | full tight _ onward _ full => exact .full tight (passes.trans onward) full

theorem Program.ofScript_concludes (script : Script) (builtins : BuiltinSet) (host : Host σ)
    (limits : Limits) (rounds : Nat) (world : σ)
    (final : ∀ o, script.body.exec builtins host rounds [] world = some o → o.ending.Final) :
    (ofScript script).Concludes builtins host rounds
      (limits.maxStackDepth < max 1 script.body.places) (.initial limits) world
      (script.body.exec builtins host rounds [] world) := by
  obtain ⟨known, knowsNothing⟩ := Tables.ofStmt_knows script.body
  have uses := ofScript_uses script
  have holds := (ofScript script).holds_self
  rw [code_ofScript] at holds
  have ending := holds.behind (script.body.length_code _ .outermost 0)
  have inside := Program.Holds.inside ending rfl Nat.zero_lt_two
  have carries : Carries (ofScript script) builtins host 0 (0 + script.body.size false) rounds
      (limits.maxStackDepth < script.body.places) (.initial limits) world
      (LoopFrame.outermost.After (.withLimit limits.maxStackDepth) (0 + script.body.size false))
      (script.body.exec builtins host rounds [] world) :=
    script.body.carriesOut uses known holds.left (Nat.zero_le _) (Nat.zero_le _) (.initial limits)
      world rfl nofun
  have wide : 0 + script.body.size false ≤ (ofScript script).length :=
    Nat.le_trans (Nat.le_add_right _ 2) inside
  have shorter : limits.maxStackDepth < script.body.places →
      limits.maxStackDepth < max 1 script.body.places :=
    fun short => Nat.lt_of_lt_of_le short (Nat.le_max_right _ _)
  generalize script.body.exec builtins host rounds [] world = outcome at carries final
  cases carries with
  | @leaves n outcome locals m behind passes arrived =>
      cases outcome with
      | normal =>
          cases arrived
          refine concludes_at_end uses knowsNothing ending ?_
            (passes.widen (Nat.le_refl 0) wide)
          exact fun none => Nat.lt_of_lt_of_le none (Nat.le_max_left _ _)
      -- No loop is around the statements of a script.
      | broke => exact (final _ rfl).elim
      | continued => exact (final _ rfl).elim
      | failed => exact arrived.elim
  | fails passes fails =>
      exact .ends (passes.widen (Nat.le_refl 0) wide) fails.found fails.ends ⟨rfl, rfl, _, rfl⟩
  | runsOn far passes => exact .runsOn far (passes.widen (Nat.le_refl 0) wide)
  | full tight passes full =>
      exact .full (shorter tight) (passes.widen (Nat.le_refl 0) wide)
        (full.widen (Nat.le_refl 0) wide)

namespace Program

variable {limits : Limits} {world : σ}

theorem run?_of_ends {n : Nat} {last : Machine} {before : σ} {report : RunReport σ}
    (passes : Passes p builtins host 0 p.length n (.initial limits) world last before)
    (ends : p.Ends builtins host none n last before report)
    (enough : ∀ limit ∈ limits.maxSteps, n < limit) :
    p.run? limits builtins host world = some report := by
  rw [run?_eq, runFrom?_of_stateAfter (fun limit given => Nat.le_of_lt (enough limit given)) 0
    passes.stateAfter, Nat.zero_add]
  refine runFrom?_of_ends (ends.of_unspent nofun ?_)
  intro spent
  obtain ⟨limit, given, whole⟩ := Option.map_eq_some_iff.mp spent
  have more := enough limit given
  omega

theorem trips_of_spent {limit : Nat} {m : Machine} {between : σ} {instruction : Instruction}
    {report : RunReport σ} (given : limits.maxSteps = some limit)
    (reached : p.stateAfter builtins host limit (.initial limits) world = some (m, between))
    (found : p.code[m.next]? = some instruction)
    (ended : p.run? limits builtins host world = some report) : report.Trips limits := by
  have stopped := runFrom?_of_spent reached found 0
  rw [← given, ← run?_eq, ended] at stopped
  cases stopped
  exact ⟨_, _, rfl, .inl ⟨limit, given, by dsimp only; omega⟩⟩

theorem agrees_of_untripped {exec : Nat → Option (Completion σ)} {short : Prop}
    (concludes : ∀ rounds,
      p.Concludes builtins host rounds short (.initial limits) world (exec rounds))
    {report : RunReport σ} (ended : p.run? limits builtins host world = some report)
    (untripped : ¬ report.Trips limits) :
    ∃ o, (∃ rounds, exec rounds = some o) ∧ report.Agrees o := by
  have lasts := ended
  rw [run?_eq] at lasts
  obtain ⟨n, last, before, _, reached, ends⟩ := runFrom?_ends lasts
  have conclusion := concludes (n + 1)
  generalize same : exec (n + 1) = outcome at conclusion
  have within {k : Nat} {final : Machine} {behind : σ} {instruction : Instruction}
      (passes : Passes p builtins host 0 p.length k (.initial limits) world final behind)
      (found : p.code[final.next]? = some instruction) : ∀ limit ∈ limits.maxSteps, k < limit := by
    intro limit given
    rcases Nat.lt_trichotomy limit k with less | rfl | more
    · obtain ⟨_, middle, between, reached, found, _⟩ := passes.exists_at less
      exact (untripped (trips_of_spent given reached found ended)).elim
    · exact (untripped (trips_of_spent given passes.stateAfter found ended)).elim
    · exact more
  cases conclusion with
  | ends passes found ends agrees =>
      rw [run?_of_ends passes ends (within passes found)] at ended
      cases ended
      exact ⟨_, ⟨_, same⟩, agrees⟩
  | full tight passes full =>
      obtain ⟨instruction, limit, fails, noCall⟩ := full
      rw [run?_of_ends passes fails.ends (within passes fails.found)] at ended
      cases ended
      exact (untripped ⟨_, _, rfl, .inr fun call => noCall (Option.some.inj call)⟩).elim
  | @runsOn k final behind far passes =>
      -- The run has ended after `n` steps, and cannot have taken one more.
      by_cases spent : limits.maxSteps.map (· - n) = some 0
      · obtain ⟨limit, given, whole⟩ := Option.map_eq_some_iff.mp spent
        have less : limit < k := Nat.lt_of_le_of_lt (Nat.le_of_sub_eq_zero whole) far
        obtain ⟨_, middle, between, reached', found, _⟩ := passes.exists_at less
        exact (untripped (trips_of_spent given reached' found ended)).elim
      · have gone := stateAfter_add reached (k - n)
        obtain ⟨rest, more⟩ := Nat.exists_eq_add_of_lt far
        rw [show n + (k - n) = k by omega, passes.stateAfter, show k - n = rest + 1 by omega,
          ends.stateAfter_succ spent] at gone
        cases gone

theorem exists_enough {rounds : Nat} {o : Completion σ} {short : Prop}
    (concludes : p.Concludes builtins host rounds short (.initial limits) world (some o)) :
    ∃ enough, ∀ maxSteps, (∀ limit ∈ maxSteps, enough ≤ limit) →
      ∃ report, p.run? { limits with maxSteps := maxSteps } builtins host world = some report ∧
        (report.Agrees o ∨ short ∧ report.Trips { limits with maxSteps := maxSteps }) := by
  generalize same : some o = outcome at concludes
  cases concludes with
  | @ends n last before instruction report _ passes found ends agrees =>
      cases same
      exact ⟨n + 1, fun maxSteps enough => ⟨report, run?_of_ends passes ends enough, .inl agrees⟩⟩
  | runsOn => cases same
  | @full n last before _ tight passes full =>
      obtain ⟨instruction, limit, fails, noCall⟩ := full
      exact ⟨n + 1, fun maxSteps enough => ⟨_, run?_of_ends passes fails.ends enough,
        .inr ⟨tight, _, _, rfl, .inr fun call => noCall (Option.some.inj call)⟩⟩⟩

end Program

end Run

/-- Compilation preserves the meaning of scripts.  What the grammar derives compiles; a run that ends
and meets no limit does what the script means; and if the script has a meaning, then every run with
enough steps ends with it, unless the stack is shorter than the script needs and the run finds it
full. -/
theorem FormsScript.compiled_run_agrees {s : Stmt} {source : String}
    (forms : FormsScript s (tokenize source)) :
    ∃ p places, Program.ofSource? source = .ok p ∧
      ∀ {σ : Type} (builtins : BuiltinSet) (host : Host σ) (limits : Limits) (world : σ),
        (∀ report, p.run? limits builtins host world = some report → ¬ report.Trips limits →
          ∃ o, (∃ rounds, s.exec builtins host rounds [] world = some o) ∧ report.Agrees o) ∧
        ∀ rounds o, s.exec builtins host rounds [] world = some o →
          ∃ enough, ∀ maxSteps, (∀ limit ∈ maxSteps, enough ≤ limit) →
            ∃ report,
              p.run? { limits with maxSteps := maxSteps } builtins host world = some report ∧
              (report.Agrees o ∨ limits.maxStackDepth < places ∧
                report.Trips { limits with maxSteps := maxSteps }) := by
  rcases forms.reads with ⟨script, read, same⟩
  refine ⟨.ofScript script, max 1 script.body.places, Program.ofSource?_of_read read, ?_⟩
  intro σ builtins host limits world
  rcases forms with ⟨ts, last, _, _, formsStatements⟩
  have closed : s.Closed := formsStatements.closed rfl
  have concludes (rounds : Nat) : (Program.ofScript script).Concludes builtins host rounds
      (limits.maxStackDepth < max 1 script.body.places) (.initial limits) world
      (s.exec builtins host rounds [] world) := by
    have final : ∀ o, script.body.exec builtins host rounds [] world = some o →
        o.ending.Final := by
      rw [same.exec builtins host]
      exact fun o => Stmt.exec_final closed
    have concludes := Program.ofScript_concludes script builtins host limits rounds world final
    rwa [same.exec builtins host] at concludes
  refine ⟨fun report => Program.agrees_of_untripped concludes, fun rounds o ended => ?_⟩
  exact Program.exists_enough (ended ▸ concludes rounds)

theorem Program.nested_loops_run_agrees :
    ∃ s p, FormsScript s (tokenize
        "while True:\n  for c in 'ab':\n    if c == 'b': break\n    print(c)\n  break\n") ∧
      Program.ofSource?
        "while True:\n  for c in 'ab':\n    if c == 'b': break\n    print(c)\n  break\n" =
          .ok p ∧
      ∃ report,
        p.run? .standard .standard Recorder.host (.ofInputs []) = some report ∧
        ¬ report.Trips .standard ∧
        ∃ o, (∃ rounds, s.exec .standard Recorder.host rounds [] (.ofInputs []) = some o) ∧
          report.Agrees o := by
  let source := "while True:\n  for c in 'ab':\n    if c == 'b': break\n    print(c)\n  break\n"
  obtain ⟨_, accepted⟩ := exists_of_isOk source (by decide +kernel)
  obtain ⟨s, forms⟩ := exists_forms_of_compiled accepted
  obtain ⟨p, _, compiled, agrees⟩ := FormsScript.compiled_run_agrees forms
  have ran : ((ofSource? source).toOption.any fun p =>
      (p.run .standard .standard Recorder.host (.ofInputs [])).result.isOk) = true := by
    decide +kernel
  rw [compiled] at ran
  obtain ⟨report, ended⟩ : ∃ report,
      p.run? .standard .standard Recorder.host (.ofInputs []) = some report :=
    ⟨_, run?_of_maxSteps rfl _⟩
  change (p.run .standard .standard Recorder.host (.ofInputs [])).result.isOk = true at ran
  rw [run_of_run? ended] at ran
  have untripped := RunReport.not_trips_of_isOk ran .standard
  exact ⟨s, p, forms, compiled, report, ended, untripped,
    (agrees .standard Recorder.host .standard (.ofInputs [])).1 report ended untripped⟩

end LessonScript
