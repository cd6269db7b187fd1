import LessonScript.Proofs.ExprReading
import LessonScript.Proofs.ExprRun

/-!
The code of a spelled expression does what the expression means.

Reading turns a spelling into a tree with the same meaning, and the code of that tree computes
it from any machine.  The grammar leaves no expression out: with parentheses around every
operand each tree has a spelling (`Expr.exists_spells`).
-/

namespace LessonScript

variable {σ : Type}

section Spellings

variable {n : Nat} {e : Expr} {ts : List Token}

theorem Spells.deepen {m : Nat} {phrase : Phrase} (spells : Spells n phrase ts) (le : n ≤ m) :
    Spells m phrase ts := by
  induction spells generalizing m with
  | literal denotes => exact .literal denotes
  | name reads free => exact .name reads free
  | parentheses opening _ closing ih => exact .parentheses opening (ih le) closing
  | call _ ih => exact .call (ih le)
  | callMore _ opening _ closing ih ih' => exact .callMore (ih le) opening (ih' le) closing
  | noArguments => exact .noArguments
  | lastArgument _ ih => exact .lastArgument (ih le)
  | moreArguments _ between _ ih ih' => exact .moreArguments (ih le) between (ih' le)
  | negation _ ih => exact .negation (ih le)
  | product _ ih => exact .product (ih le)
  | productMore _ joins reads _ ih ih' => exact .productMore (ih le) joins reads (ih' le)
  | sum _ ih => exact .sum (ih le)
  | sumMore _ joins reads _ ih ih' => exact .sumMore (ih le) joins reads (ih' le)
  | comparison _ ih => exact .comparison (ih le)
  | compare _ reads _ ih ih' => exact .compare (ih le) reads (ih' le)
  | inversion _ ih => exact .inversion (ih le)
  | conjunction _ ih => exact .conjunction (ih le)
  | conjunctionMore _ reads _ ih ih' => exact .conjunctionMore (ih le) reads (ih' le)
  | disjunction _ ih => exact .disjunction (ih le)
  | disjunctionMore _ reads _ ih ih' => exact .disjunctionMore (ih le) reads (ih' le)
  | minus reads _ ih =>
      obtain ⟨m, rfl⟩ := Nat.exists_eq_add_of_lt le
      exact .minus reads (ih (Nat.le_add_right _ _))
  | not reads _ ih =>
      obtain ⟨m, rfl⟩ := Nat.exists_eq_add_of_lt le
      exact .not reads (ih (Nat.le_add_right _ _))
  | expression _ ih =>
      obtain ⟨m, rfl⟩ := Nat.exists_eq_add_of_lt le
      exact .expression (ih (Nat.le_add_right _ _))

theorem Literal.exists_token (l : Literal) : ∃ token : Token, token.kind.literal? = some l := by
  cases l with
  | nothing => exact ⟨.mark (.keyword .nothing) default, rfl⟩
  | bool b =>
      cases b with
      | false => exact ⟨.mark (.keyword .false) default, rfl⟩
      | true => exact ⟨.mark (.keyword .true) default, rfl⟩
  | int n => exact ⟨.mark (.int n) default, rfl⟩
  | float x => exact ⟨.mark (.float x) default, rfl⟩
  | str s => exact ⟨.mark (.str s) default, rfl⟩

theorem TokenKind.exists_token (kind : TokenKind) : ∃ token : Token, token.kind = kind :=
  ⟨.mark kind default, rfl⟩

theorem Spells.parenthesized (inside : Spells n (.operand .disjunction e) ts) :
    ∃ n us, Spells n (.operand .primary e) us := by
  obtain ⟨left, opening⟩ := TokenKind.exists_token (.symbol .leftParen)
  obtain ⟨right, closing⟩ := TokenKind.exists_token (.symbol .rightParen)
  exact ⟨n + 1, left :: (ts ++ [right]), .parentheses opening (.expression inside) closing⟩

theorem Spells.exists_common {phrase phrase' : Phrase}
    (first : ∃ n ts, Spells n phrase ts) (second : ∃ n ts, Spells n phrase' ts) :
    ∃ n ts us, Spells n phrase ts ∧ Spells n phrase' us := by
  rcases first with ⟨n, ts, first⟩
  rcases second with ⟨m, us, second⟩
  exact ⟨max n m, ts, us, first.deepen (Nat.le_max_left _ _), second.deepen (Nat.le_max_right _ _)⟩

variable {t : Tables}

mutual

theorem Expr.exists_spells (e : Expr) (free : ∀ id ∈ t.names, isReserved id = false)
    (known : e.KnownTo t) : ∃ n ts, Spells n (.operand .primary e) ts := by
  cases e with
  | literal line l =>
      rcases l.exists_token with ⟨token, denotes⟩
      exact ⟨0, [token], .literal denotes⟩
  | name line id =>
      obtain ⟨token, reads⟩ := TokenKind.exists_token (.name id)
      exact ⟨0, [token], .name reads (free id known)⟩
  | negate line e =>
      obtain ⟨n, ts, operand⟩ := e.exists_spells free known
      obtain ⟨sign, reads⟩ := TokenKind.exists_token (.symbol .minus)
      have negation : Spells (n + 1) (.operand .negation (.negate line e)) (sign :: ts) :=
        .minus reads (.negation (.call operand))
      exact Spells.parenthesized (.disjunction_of_inversion
        (.inversion (.comparison (.sum (.product negation)))))
  | complement line e =>
      obtain ⟨n, ts, operand⟩ := e.exists_spells free known
      obtain ⟨word, reads⟩ := TokenKind.exists_token (.keyword .not)
      have inversion : Spells (n + 1) (.operand .inversion (.complement line e)) (word :: ts) :=
        .not reads operand.inversion_of_primary
      exact Spells.parenthesized (.disjunction_of_inversion inversion)
  | arith line op l r =>
      obtain ⟨n, ts, us, left, right⟩ :=
        Spells.exists_common (l.exists_spells free known.1) (r.exists_spells free known.2)
      obtain ⟨sign, reads⟩ := TokenKind.exists_token (.symbol op.sign)
      have sum : ∃ vs, Spells n (.operand .sum (.arith line op l r)) vs := by
        cases joins : op.joinsFactors with
        | true =>
            have factor := Spells.product (.negation (.call left))
            exact ⟨_, .sum (.productMore factor joins reads (.negation (.call right)))⟩
        | false =>
            have term := Spells.product (.negation (.call right))
            exact ⟨_, .sumMore left.sum_of_primary joins reads term⟩
      rcases sum with ⟨vs, sum⟩
      exact Spells.parenthesized (.disjunction_of_inversion (.inversion (.comparison sum)))
  | compare line op l r =>
      obtain ⟨n, ts, us, left, right⟩ :=
        Spells.exists_common (l.exists_spells free known.1) (r.exists_spells free known.2)
      obtain ⟨sign, reads⟩ := TokenKind.exists_token (.symbol op.sign)
      have comparison : Spells n (.operand .comparison (.compare line op l r)) (ts ++ sign :: us) :=
        .compare left.sum_of_primary reads right.sum_of_primary
      exact Spells.parenthesized (.disjunction_of_inversion (.inversion comparison))
  | both line l r =>
      obtain ⟨n, ts, us, left, right⟩ :=
        Spells.exists_common (l.exists_spells free known.1) (r.exists_spells free known.2)
      obtain ⟨word, reads⟩ := TokenKind.exists_token (.keyword .and)
      have conjunction : Spells n (.operand .conjunction (.both line l r)) (ts ++ word :: us) :=
        .conjunctionMore (.conjunction left.inversion_of_primary) reads right.inversion_of_primary
      exact Spells.parenthesized (.disjunction conjunction)
  | either line l r =>
      obtain ⟨n, ts, us, left, right⟩ :=
        Spells.exists_common (l.exists_spells free known.1) (r.exists_spells free known.2)
      obtain ⟨word, reads⟩ := TokenKind.exists_token (.keyword .or)
      have disjunction : Spells n (.operand .disjunction (.either line l r)) (ts ++ word :: us) :=
        .disjunctionMore left.inversion_of_primary.disjunction_of_inversion reads
          (.conjunction right.inversion_of_primary)
      exact Spells.parenthesized disjunction
  | call line callee args =>
      obtain ⟨n, ts, us, callee, args⟩ :=
        Spells.exists_common (callee.exists_spells free known.1)
          (exists_spells_all args free known.2)
      obtain ⟨left, opening⟩ := TokenKind.exists_token (.symbol .leftParen)
      obtain ⟨right, closing⟩ := TokenKind.exists_token (.symbol .rightParen)
      have call : Spells n (.operand .call (.call line _ _)) (ts ++ left :: (us ++ [right])) :=
        .callMore (.call callee) opening args closing
      exact Spells.parenthesized (.disjunction_of_inversion
        (.inversion (.comparison (.sum (.product (.negation call))))))

theorem exists_spells_all (es : List Expr) (free : ∀ id ∈ t.names, isReserved id = false)
    (known : AllKnownTo t es) : ∃ n ts, Spells n (.arguments es) ts := by
  cases es with
  | nil => exact ⟨0, [], .noArguments⟩
  | cons e es =>
      obtain ⟨n, ts, us, first, others⟩ :=
        Spells.exists_common (e.exists_spells free known.1) (exists_spells_all es free known.2)
      obtain ⟨comma, between⟩ := TokenKind.exists_token (.symbol .comma)
      have argument := Spells.expression (.disjunction_of_inversion first.inversion_of_primary)
      exact ⟨n + 1, _, .moreArguments argument between (others.deepen (Nat.le_succ n))⟩

end

end Spellings

/-- From the state of the machine, the next `size` instructions do what the outcome of an expression
says: they push its value on the stack and leave the bindings, and the run goes on from there; or
the run stops in them with its fault.  Either way they change the world in the same manner. -/
def Program.Evaluates (p : Program) (host : Host σ) (vm : Vm) (world : σ) (size : Nat) :
    Except Fault Value × σ → Prop
  | (.ok v, behind) =>
    ∃ n m, n ≤ size ∧ vm.machine.Pushed [v] (vm.machine.next + size) m ∧
      p.stateAfter vm.builtins host n vm.machine world = some (m, behind) ∧
      (vm.execute? p host world).map Finish.report =
        (Vm.execute? { vm with machine := m, steps := vm.steps + n } p host behind).map
          Finish.report
  | (.error fault, behind) =>
    ∃ n instruction offset, n < size ∧ vm.machine.next ≤ offset ∧
      offset < vm.machine.next + size ∧ p.code[offset]? = some instruction ∧
      (vm.execute? p host world).map Finish.report =
        some ⟨.error ⟨fault, some (Program.siteOf instruction offset)⟩, vm.steps + n + 1, vm.locals,
          behind⟩

/-- The run stops in the next `size` instructions because of a limit: it has no step left for one of
them, or one of them finds the stack full, on which fewer than `places` values have a place. -/
def Program.StopsShort (p : Program) (host : Host σ) (vm : Vm) (world : σ) (size places : Nat) :
    Prop :=
  ∃ n limit instruction last before, n < size ∧
    p.stateAfter vm.builtins host n vm.machine world = some (last, before) ∧
    p.code[last.next]? = some instruction ∧ vm.machine.next ≤ last.next ∧
    last.next < vm.machine.next + size ∧
    (vm.execute? p host world).map Finish.report =
      some ⟨.error ⟨.limit limit, some (Program.siteOf instruction last.next)⟩, vm.steps + n + 1,
        last.locals, before⟩ ∧
    (vm.limits.maxSteps.map (· - vm.steps) = some n ∨ vm.machine.stack.room < places)

section Evaluation

variable {p : Program} {host : Host σ} {vm : Vm} {world before : σ} {base size places n : Nat}
  {last : Machine} {instruction : Instruction}

namespace Program

theorem stopsShort_of_spent (fast : n < size)
    (reached : p.stateAfter vm.builtins host n vm.machine world = some (last, before))
    (found : p.code[last.next]? = some instruction) (low : vm.machine.next ≤ last.next)
    (high : last.next < vm.machine.next + size)
    (left : vm.limits.maxSteps.map (· - vm.steps) = some n) :
    p.StopsShort host vm world size places := by
  refine ⟨n, .steps (vm.steps + n), instruction, last, before, fast, reached, found, low, high, ?_,
    .inl left⟩
  rw [p.report_execute?, left]
  exact runFrom?_of_spent reached found vm.steps

/-- A run gets through a stretch, or it has not so many steps left and stops in the stretch. -/
theorem stopsShort_or_within (fast : n ≤ size)
    (passes : Passes p vm.builtins host vm.machine.next (vm.machine.next + size) n vm.machine world
      last before) :
    p.StopsShort host vm world size places ∨
      ∀ limit, vm.limits.maxSteps.map (· - vm.steps) = some limit → n ≤ limit := by
  cases left : vm.limits.maxSteps.map (· - vm.steps) with
  | none => exact .inr nofun
  | some limit =>
      rcases Nat.lt_or_ge limit n with less | enough
      · obtain ⟨instruction, middle, between, reached, found, low, high⟩ := passes.exists_at less
        exact .inl (stopsShort_of_spent (Nat.lt_of_lt_of_le less fast) reached found low high left)
      · right
        rintro _ ⟨⟩
        exact enough

/-- A run that gets to an instruction that fails stops there, unless it has no step left. -/
theorem stopsShort_or_fails {fault : Fault} {behind : σ} (fast : n < size)
    (passes : Passes p vm.builtins host vm.machine.next (vm.machine.next + size) n vm.machine world
      last before)
    (fails : FailsIn p vm.builtins host vm.machine.next (vm.machine.next + size) last before
      instruction fault behind) :
    p.StopsShort host vm world size places ∨
      (vm.execute? p host world).map Finish.report =
        some ⟨.error ⟨fault, some (siteOf instruction last.next)⟩, vm.steps + n + 1, last.locals,
          behind⟩ := by
  rcases stopsShort_or_within (Nat.le_of_lt fast) passes with short | within
  · exact .inl short
  · by_cases left : vm.limits.maxSteps.map (· - vm.steps) = some n
    · exact .inl
        (stopsShort_of_spent fast passes.stateAfter fails.found fails.low fails.high left)
    · right
      rw [p.report_execute?, runFrom?_of_stateAfter within _ passes.stateAfter]
      refine runFrom?_of_ends (.failed fails.found ?_ fails.refused)
      intro spent
      obtain ⟨limit, given, whole⟩ := Option.map_eq_some_iff.mp spent
      have enough := within limit given
      exact left (given.trans (congrArg some (by omega)))

/-- From every state of the machine a computation comes out as it should, or meets a limit. -/
theorem Computes.evaluates {result : Locals → σ → Except Fault Value × σ}
    (computes : p.Computes vm.builtins host base size places (fun v => [v]) result)
    (here : vm.machine.next = base) :
    p.Evaluates host vm world size (result vm.locals world) ∨
      p.StopsShort host vm world size places := by
  cases here
  have delivers := computes vm.machine world rfl
  change Delivers p vm.builtins host _ _ _ _ _ _ _ (result vm.locals world) _ at delivers
  generalize result vm.locals world = outcome at delivers
  cases delivers with
  | @value n v m behind _ fast passes arrived =>
      rcases stopsShort_or_within fast passes with short | within
      · exact .inr short
      · refine .inl ⟨n, m, fast, arrived, passes.stateAfter, ?_⟩
        rw [p.report_execute?, p.report_execute?,
          runFrom?_of_stateAfter within _ passes.stateAfter, Option.map_map]
        congr 2
        funext limit
        exact Nat.sub_sub limit vm.steps n
  | @fault n _ _ _ instruction _ _ fast passes kept fails =>
      rcases stopsShort_or_fails fast passes fails with short | report
      · exact .inr short
      · rw [kept] at report
        exact .inl ⟨n, instruction, _, fast, fails.low, fails.high, fails.found, report⟩
  | @full n last before _ _ tight fast passes _ full =>
      obtain ⟨instruction, limit, fails, _⟩ := full
      rcases stopsShort_or_fails fast passes fails with short | report
      · exact .inr short
      · exact .inr ⟨n, .depth limit, instruction, last, before, fast, passes.stateAfter,
          fails.found, fails.low, fails.high, report, .inr tight⟩

theorem StopsShort.of_enough (short : p.StopsShort host vm world size places)
    (steps : ∀ limit ∈ vm.limits.maxSteps, vm.steps + size ≤ limit)
    (room : places ≤ vm.machine.stack.room) : False := by
  obtain ⟨n, _, _, _, _, fast, _, _, _, _, _, spent | tight⟩ := short
  · obtain ⟨limit, given, whole⟩ := Option.map_eq_some_iff.mp spent
    have enough := steps limit given
    omega
  · exact Nat.not_lt_of_le room tight

end Program

end Evaluation

/-- Compilation preserves the meaning of expressions: however an expression is spelled, it is read,
and in any program and from any state of the machine the code of what was read evaluates it, or
meets a limit on the way.  As many steps as the code has instructions, and as many places on the
stack as the tree asks for, are enough. -/
theorem Spells.compiled_evaluates {n bound : Nat} {e : Expr} {ts rest : List Token}
    (spells : Spells n (.operand .expression e) ts)
    (stops : (TokenReader.kindOf rest).stops Strength.expression.looseness = true)
    (short : (ts ++ rest).length ≤ bound) :
    ∃ e', (ExprReader.innerAt bound n).expression (ts ++ rest) = .ok (e', rest) ∧
      ∀ (p : Program) (t : Tables) (base : Nat), p.Uses t → e'.KnownTo t →
        p.Holds base (e'.code t base) →
        ∀ {σ : Type} (host : Host σ) (vm : Vm) (world : σ), vm.machine.next = base →
          (p.Evaluates host vm world e'.size (e.eval vm.builtins host vm.locals world) ∨
            p.StopsShort host vm world e'.size e'.places) ∧
          ((∀ limit ∈ vm.limits.maxSteps, vm.steps + e'.size ≤ limit) →
            e'.places ≤ vm.machine.stack.room →
              p.Evaluates host vm world e'.size (e.eval vm.builtins host vm.locals world)) := by
  obtain ⟨e', same, read⟩ := spells.reads bound rest stops short
  refine ⟨e', read, ?_⟩
  intro p t base uses known holds σ host vm world here
  have computes : p.Computes vm.builtins host base e'.size e'.places (fun v => [v])
      (fun locals => e.eval vm.builtins host locals) :=
    (e'.computes uses known holds).congr fun locals => congrFun (same.eval _ host locals).symm
  have evaluates : p.Evaluates host vm world e'.size (e.eval vm.builtins host vm.locals world) ∨
      p.StopsShort host vm world e'.size e'.places := computes.evaluates here
  exact ⟨evaluates, fun steps room => evaluates.resolve_right (·.of_enough steps room)⟩

/-- With `n` bound to 3, the code of `n and print(n)` shows the 3 and pushes `None`. -/
theorem Program.conjunction_evaluates :
    ∃ e' : Expr, (ExprReader.innerAt 7 2).expression
        [.mark (.name "n") default, .mark (.keyword .and) default, .mark (.name "print") default,
          .mark (.symbol .leftParen) default, .mark (.name "n") default,
          .mark (.symbol .rightParen) default, .mark .newline default] =
        .ok (e', [.mark .newline default]) ∧
      (ofScript ⟨.evaluate 0 e', 0⟩).Evaluates Recorder.host
        ⟨⟨some 9, 4, false⟩, .standard, ⟨⟨[.nothing], 3⟩, [("n", .int 3)], 0⟩, 4⟩ (.ofInputs [])
        e'.size (.ok .nothing, ⟨#["3"], #[], []⟩) := by
  have left : Spells 1 (.operand .primary (.name 0 "n")) [.mark (.name "n") default] :=
    .name rfl (by decide)
  have callee : Spells 1 (.operand .primary (.name 0 "print")) [.mark (.name "print") default] :=
    .name rfl (by decide)
  have argument : Spells 1 (.operand .expression (.name 0 "n")) [.mark (.name "n") default] :=
    .expression (.disjunction_of_inversion (.inversion_of_primary (.name rfl (by decide))))
  have call : Spells 1 (.operand .call (.call 0 (.name 0 "print") [.name 0 "n"]))
      (.mark (.name "print") default :: .mark (.symbol .leftParen) default ::
        [.mark (.name "n") default, .mark (.symbol .rightParen) default]) :=
    .callMore (.call callee) rfl (.lastArgument argument) rfl
  have conjunction : Spells 1 (.operand .conjunction
      (.both 0 (.name 0 "n") (.call 0 (.name 0 "print") [.name 0 "n"])))
      (.mark (.name "n") default :: .mark (.keyword .and) default ::
        [.mark (.name "print") default, .mark (.symbol .leftParen) default,
          .mark (.name "n") default, .mark (.symbol .rightParen) default]) :=
    .conjunctionMore (.conjunction left.inversion_of_primary) rfl
      (.inversion (.comparison (.sum (.product (.negation call)))))
  have stops : (TokenReader.kindOf [Token.mark .newline default]).stops
      Strength.expression.looseness = true := rfl
  obtain ⟨e', read, evaluates⟩ :=
    (Spells.expression (.disjunction conjunction)).compiled_evaluates stops (Nat.le_refl 7)
  refine ⟨e', read, ?_⟩
  cases read
  let script : Script :=
    ⟨.evaluate 0 (.both 0 (.name 0 "n") (.call 0 (.name 0 "print") [.name 0 "n"])), 0⟩
  obtain ⟨known, _⟩ := Tables.ofStmt_knows script.body
  have holds := (ofScript script).holds_self
  rw [code_ofScript] at holds
  have steps : ∀ limit ∈ some 9, 4 + Expr.size
      (.both 0 (.name 0 "n") (.call 0 (.name 0 "print") [.name 0 "n"])) ≤ limit := by
    decide
  have room : Expr.places (.both 0 (.name 0 "n") (.call 0 (.name 0 "print") [.name 0 "n"])) ≤ 3 := by
    decide
  exact (evaluates (ofScript script) _ 0 (ofScript_uses script) known holds.left.left Recorder.host
    ⟨⟨some 9, 4, false⟩, .standard, ⟨⟨[.nothing], 3⟩, [("n", .int 3)], 0⟩, 4⟩ (.ofInputs [])
    rfl).2 steps room

end LessonScript
