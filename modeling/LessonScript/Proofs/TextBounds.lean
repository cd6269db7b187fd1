import LessonScript.Proofs.TextSizes
import LessonScript.Proofs.ValueInvariants

/-!
Scripts do not build long texts.

Only joining and repeating make a text longer than their operands, and they refuse to go beyond a
greatest length.  So a text that a run holds is no longer than that, or than a constant of the
program, or than a line that the host gave.

`Host.heard` behaves like a host and keeps the lines that it gave.  `Host.within` refuses lines that
are too long, so that every run with it keeps the bound (`Host.within_keeps`); a run in which no
line was too long is a run with this host as well (`Program.Reaches.within`,
`Program.runFrom_heard`).
-/

namespace LessonScript

namespace Value

theorem add_str (s t : String) :
    arith .add (.str s) (.str t) =
      if (s ++ t).utf8ByteSize ≤ 2 ^ 20 then .ok (.str (s ++ t)) else .error (.overflow "+") := by
  rw [String.utf8ByteSize_append]
  rfl

theorem repeated_eq (s : String) (count : Int) :
    repeated s count =
      if (String.join (List.replicate count.toNat s)).utf8ByteSize ≤ 2 ^ 20 then
        .ok (.str (String.join (List.replicate count.toNat s)))
      else .error (.overflow "*") := by
  have size := utf8ByteSize_textTimes s count.toNat
  rw [textTimes_eq] at size
  unfold repeated
  rw [textTimes_eq, size]
  split
  · rename_i trivial
    have none : s.utf8ByteSize * count.toNat = 0 := by
      rcases trivial with negative | empty
      · rw [Int.toNat_of_nonpos (Int.le_of_lt negative), Nat.mul_zero]
      · rw [String.isEmpty_iff.mp empty]
        exact Nat.zero_mul _
    rw [none] at size ⊢
    rw [if_pos (Nat.zero_le _), String.utf8ByteSize_eq_zero_iff.mp size]
  · rfl

end Value

variable {σ : Type}

/-- The lines that an answer gives: one, unless the host fails. -/
def linesOf : Except Fault String → List String
  | .ok line => [line]
  | .error _ => []

/-- The host, with a record of the lines that it gave, the first one first. -/
def Host.heard (host : Host σ) : Host (σ × List String) where
  print state message := (host.print state.1 message, state.2)
  input state prompt :=
    let (answer, world) := host.input state.1 prompt
    (answer, (world, state.2 ++ linesOf answer))

/-- The host, except that it gives no line longer than the bound. -/
def Host.within (bound : Nat) (host : Host σ) : Host σ where
  print := host.print
  input world prompt :=
    let (answer, after) := host.input world prompt
    (do
      let line ← answer
      if line.utf8ByteSize ≤ bound then return line else .error inputUnavailable, after)

theorem Host.within_short {host : Host σ} {world after : σ} {prompt : String}
    {answer : Except Fault String} (given : host.input world prompt = (answer, after)) {bound : Nat}
    (short : ∀ line, answer = .ok line → line.utf8ByteSize ≤ bound) :
    (host.within bound).input world prompt = (answer, after) := by
  simp only [within, given]
  cases answer with
  | error fault => rfl
  | ok line =>
      have fits := short line rfl
      dsimp only [bind, Except.bind]
      rw [if_pos fits]
      rfl

theorem Host.short_of_within {host : Host σ} {world after : σ} {prompt line : String} {bound : Nat}
    (given : (host.within bound).input world prompt = (.ok line, after)) :
    line.utf8ByteSize ≤ bound := by
  rw [within] at given
  obtain ⟨same, _⟩ := Prod.mk.inj given
  obtain ⟨answer, _, kept⟩ := exists_of_bind_ok same
  split at kept
  · cases kept
    assumption
  · cases kept

section Heard

variable (host : Host σ) (state : σ × List String)

/-- A call adds the line that it is given to the record, and a host that refuses longer lines
gives it too. -/
theorem Builtin.call_heard (f : Builtin) (args : List Value) :
    ∃ lines, f.call host.heard state args =
        ((f.call host state.1 args).1, ((f.call host state.1 args).2, state.2 ++ lines)) ∧
      ∀ bound, (∀ line ∈ lines, line.utf8ByteSize ≤ bound) →
        f.call (host.within bound) state.1 args = f.call host state.1 args := by
  unfold Builtin.call
  split
  · cases f with
    | print => exact ⟨[], by simp [Host.heard], fun _ _ => rfl⟩
    | input =>
        refine ⟨linesOf (host.input state.1 (promptOf args)).1, rfl, fun bound short => ?_⟩
        have given : host.input state.1 (promptOf args) = _ := rfl
        rw [Host.within_short given fun line gives => short line (by simp [gives, linesOf])]
    | abs | min | max | len | str | int | float | round | range =>
        exact ⟨[], by simp, fun _ _ => rfl⟩
  · exact ⟨[], by simp, fun _ _ => rfl⟩

theorem Machine.dispatch_heard (p : Program) (builtins : BuiltinSet) (m : Machine) (op : Opcode) :
    ∃ lines, dispatch p builtins host.heard m state op =
        ((dispatch p builtins host m state.1 op).1,
          ((dispatch p builtins host m state.1 op).2, state.2 ++ lines)) ∧
      ∀ bound, (∀ line ∈ lines, line.utf8ByteSize ≤ bound) →
        dispatch p builtins (host.within bound) m state.1 op =
          dispatch p builtins host m state.1 op := by
  by_cases calls : ∃ count, op = .call count
  · obtain ⟨count, rfl⟩ := calls
    simp only [dispatch, performCall]
    split
    · exact ⟨[], by simp, fun _ _ => rfl⟩
    · rename_i f args rest operands
      obtain ⟨lines, same, within⟩ := f.call_heard host state args
      refine ⟨lines, by rw [same], fun bound short => ?_⟩
      rw [within bound short]
    · exact ⟨[], by simp, fun _ _ => rfl⟩
  · refine ⟨[], ?_, fun _ _ => ?_⟩
    · cases op with
      | call count => exact absurd ⟨count, rfl⟩ calls
      | _ => simp [dispatch]
    · cases op with
      | call count => exact absurd ⟨count, rfl⟩ calls
      | _ => rfl

end Heard

section Runs

variable {p : Program} {builtins : BuiltinSet} {host : Host σ} {start m : Machine}
  {world behind : σ}

theorem Program.Reaches.heard (reached : p.Reaches builtins host start world m behind) :
    ∃ lines, p.Reaches builtins host.heard start (world, []) m (behind, lines) := by
  induction reached with
  | start => exact ⟨[], .start⟩
  | @step m after before behind instruction _ found stepped ih =>
      obtain ⟨lines, reached⟩ := ih
      obtain ⟨more, same, _⟩ := Machine.dispatch_heard host (before, lines) p builtins
        { m with next := m.next + 1 } instruction.op
      exact ⟨lines ++ more, reached.step found (by rw [same, stepped])⟩

/-- What is reached without too long a line is reached with the host that refuses such lines. -/
theorem Program.Reaches.within {state : σ × List String}
    (reached : p.Reaches builtins host.heard start (world, []) m state) {bound : Nat}
    (short : ∀ line ∈ state.2, line.utf8ByteSize ≤ bound) :
    p.Reaches builtins (host.within bound) start world m state.1 := by
  induction reached with
  | start => exact .start
  | @step m after before behind instruction _ found stepped ih =>
      obtain ⟨more, same, within⟩ := Machine.dispatch_heard host before p builtins
        { m with next := m.next + 1 } instruction.op
      obtain ⟨outcome, rfl⟩ := Prod.mk.inj (same.symm.trans stepped)
      have shortMore := within bound fun line member => short line (List.mem_append_right _ member)
      refine (ih fun line member => short line (List.mem_append_left _ member)).step found ?_
      rw [shortMore, ← outcome]

theorem Program.runFrom_heard (p : Program) (builtins : BuiltinSet) (host : Host σ)
    (budget steps : Nat) (m : Machine) (state : σ × List String) :
    ∃ lines, p.runFrom builtins host.heard budget steps m state =
        { p.runFrom builtins host budget steps m state.1 with
          world := ((p.runFrom builtins host budget steps m state.1).world, state.2 ++ lines) } ∧
      ∀ bound, (∀ line ∈ lines, line.utf8ByteSize ≤ bound) →
        p.runFrom builtins (host.within bound) budget steps m state.1 =
          p.runFrom builtins host budget steps m state.1 := by
  induction budget generalizing steps m state with
  | zero =>
      simp only [runFrom]
      split
      · exact ⟨[], by simp, fun _ _ => trivial⟩
      · exact ⟨[], by simp, fun _ _ => trivial⟩
  | succ budget ih =>
      simp only [runFrom]
      split
      · exact ⟨[], by simp, fun _ _ => rfl⟩
      · rename_i instruction found
        obtain ⟨first, same, within⟩ := Machine.dispatch_heard host state p builtins
          { m with next := m.next + 1 } instruction.op
        rw [same]
        cases effect : Machine.dispatch p builtins host { m with next := m.next + 1 } state.1
            instruction.op with
        | mk outcome world =>
            rw [effect] at within
            cases outcome with
            | error fault => exact ⟨first, rfl, fun bound short => by rw [within bound short]⟩
            | ok flow =>
                cases flow with
                | finish v after =>
                    exact ⟨first, rfl, fun bound short => by rw [within bound short]⟩
                | goOn after =>
                    obtain ⟨others, run, inner⟩ := ih (steps + 1) after (world, state.2 ++ first)
                    refine ⟨first ++ others, ?_, fun bound short => ?_⟩
                    · rw [← List.append_assoc]
                      exact run
                    · rw [within bound fun line member =>
                        short line (List.mem_append_left _ member)]
                      exact inner bound fun line member =>
                        short line (List.mem_append_right _ member)

end Runs

def maximum (least : Nat) (sizes : List Nat) : Nat :=
  sizes.foldr max least

theorem le_maximum (least : Nat) (sizes : List Nat) : least ≤ maximum least sizes := by
  induction sizes with
  | nil => exact Nat.le_refl least
  | cons size sizes ih => exact Nat.le_trans ih (Nat.le_max_right _ _)

theorem le_maximum_of_mem {least size : Nat} {sizes : List Nat} (member : size ∈ sizes) :
    size ≤ maximum least sizes := by
  induction sizes with
  | nil => cases member
  | cons first sizes ih =>
      rcases List.mem_cons.mp member with rfl | later
      · exact Nat.le_max_left _ _
      · exact Nat.le_trans (ih later) (Nat.le_max_right _ _)

/-- The bytes of the longest text among the constants of the program and some lines, and at least
the greatest length of a text that is built. -/
def Program.textBound (p : Program) (lines : List String) : Nat :=
  maximum (2 ^ 20) (p.constants.toList.map Value.textBytes ++ lines.map String.utf8ByteSize)

theorem Program.textBound_spec (p : Program) (lines : List String) :
    2 ^ 20 ≤ p.textBound lines ∧ (∀ v ∈ p.constants, v.textBytes ≤ p.textBound lines) ∧
      ∀ line ∈ lines, line.utf8ByteSize ≤ p.textBound lines := by
  refine ⟨le_maximum _ _, fun v member => ?_, fun line member => ?_⟩
  · have inTable := List.mem_map_of_mem (f := Value.textBytes) (Array.mem_toList_iff.mpr member)
    exact le_maximum_of_mem (List.mem_append_left _ inTable)
  · have given := List.mem_map_of_mem (f := String.utf8ByteSize) member
    exact le_maximum_of_mem (List.mem_append_right _ given)

def Value.Within (bound : Nat) (v : Value) : Prop :=
  v.textBytes ≤ bound

theorem Host.within_keeps {p : Program} {builtins : BuiltinSet} {bound : Nat} (host : Host σ)
    (large : 2 ^ 20 ≤ bound) (constants : ∀ v ∈ p.constants, v.Within bound) :
    p.Keeps builtins (host.within bound) (Value.Within bound) where
  constant := constants
  builtin _ _ := Nat.zero_le _
  computed v computed := by
    cases computed with
    | bool | int | float => exact Nat.zero_le _
    | text short => exact Nat.le_trans short large
  call world f args v after _ within called := by
    have gives := f.resultOf_gives args
    unfold Builtin.call at called
    split at called
    · cases f with
      | print =>
          cases called
          exact Nat.zero_le _
      | input =>
          cases given : (host.within bound).input world (Builtin.promptOf args) with
          | mk answer behind =>
              rw [given] at called
              cases answer with
              | error fault => cases called
              | ok line =>
                  cases called
                  exact Host.short_of_within given
      | abs | min | max | len | str | int | float | round | range =>
          obtain ⟨result, _⟩ := Prod.mk.inj called
          rw [result] at gives
          cases gives with
          | nothing | range => exact Nat.zero_le _
          | argument member => exact within v member
          | text member =>
              exact Nat.le_trans (Value.utf8ByteSize_text_le _)
                (Nat.max_le.mpr ⟨large, within _ member⟩)
          | computed computed =>
              cases computed with
              | bool | int | float => exact Nat.zero_le _
              | text short => exact Nat.le_trans short large
    · cases called
  iteration v i within same := by
    unfold Machine.iterationOf at same
    split at same
    · cases same
      exact Nat.zero_le _
    · cases same
      exact within
    · cases same
      exact within
    · cases same
  item i item after within advanced := by
    cases i with
    | counting next stop step =>
        simp only [Iteration.advance?, Option.ite_none_right_eq_some] at advanced
        cases advanced.2
        exact ⟨Nat.zero_le _, Nat.zero_le _⟩
    | spelling text next =>
        simp only [Iteration.advance?] at advanced
        split at advanced
        · cases advanced
        · cases advanced
          refine ⟨?_, within⟩
          have size := (next.get ‹_›).utf8Size_le_four
          change (String.singleton _).utf8ByteSize ≤ bound
          rw [String.utf8ByteSize_singleton]
          omega

/-- The report of a run that has heard some lines, with no text longer than they allow. -/
def Program.HeardWithin (p : Program) (report : RunReport σ)
    (heard : RunReport (σ × List String)) : Prop :=
  ∃ lines, heard = { report with world := (report.world, lines) } ∧
    (∀ v, report.result = .ok v → v.textBytes ≤ p.textBound lines) ∧
    ∀ id v, (id, v) ∈ report.locals → v.textBytes ≤ p.textBound lines

theorem Program.run_heard (p : Program) (host : Host σ) (builtins : BuiltinSet) (limits : Limits)
    (world : σ) :
    p.HeardWithin (p.run limits builtins host world)
      (p.run limits builtins host.heard (world, [])) := by
  refine run_related (R := p.HeardWithin) ?_ (fun budget => ?_) ?_
  · rintro _ _ ⟨lines, rfl, _⟩
    rfl
  · obtain ⟨lines, heard, within⟩ :=
      p.runFrom_heard builtins host budget 0 (.initial limits) (world, [])
    obtain ⟨large, constants, short⟩ := p.textBound_spec lines
    have keeps : p.Keeps builtins (host.within _) _ := host.within_keeps large constants
    have ends := runFrom_all keeps (Nat.zero_le _) budget 0 (Machine.initial_all _ limits) world
    rw [within _ short] at ends
    exact ⟨lines, heard, ends.1, fun id v member => ends.2 _ member⟩
  · refine ⟨[], rfl, ?_, nofun⟩
    rintro _ ⟨⟩
    exact Nat.zero_le _

/-- Scripts cannot build unbounded texts: whatever text a run holds, returns or leaves bound to a
name has at most a mebibyte, unless a constant of the program or a line of the host is longer.  Two
texts are joined, and a text is repeated, exactly when the outcome has at most a mebibyte. -/
theorem Program.texts_bounded :
    (∀ (p : Program) {σ : Type} (host : Host σ) (builtins : BuiltinSet) (limits : Limits)
        (world : σ),
      (∀ m behind, p.Reaches builtins host (.initial limits) world m behind →
        ∃ lines, p.Reaches builtins host.heard (.initial limits) (world, []) m (behind, lines)) ∧
      (∀ m state, p.Reaches builtins host.heard (.initial limits) (world, []) m state →
        (∀ v ∈ m.stack.values, v.textBytes ≤ p.textBound state.2) ∧
        ∀ id v, (id, v) ∈ m.locals → v.textBytes ≤ p.textBound state.2) ∧
      ∃ lines, p.run limits builtins host.heard (world, []) =
          { p.run limits builtins host world with
            world := ((p.run limits builtins host world).world, lines) } ∧
        (∀ v, (p.run limits builtins host world).result = .ok v →
          v.textBytes ≤ p.textBound lines) ∧
        ∀ id v, (id, v) ∈ (p.run limits builtins host world).locals →
          v.textBytes ≤ p.textBound lines) ∧
    (∀ s t : String, Value.arith .add (.str s) (.str t) =
      if (s ++ t).utf8ByteSize ≤ 2 ^ 20 then .ok (.str (s ++ t)) else .error (.overflow "+")) ∧
    ∀ (s : String) (n : Int64),
      Value.arith .multiply (.str s) (.int n) =
        (if (String.join (List.replicate n.toInt.toNat s)).utf8ByteSize ≤ 2 ^ 20 then
          .ok (.str (String.join (List.replicate n.toInt.toNat s)))
        else .error (.overflow "*")) ∧
      Value.arith .multiply (.int n) (.str s) = Value.arith .multiply (.str s) (.int n) ∧
      (n < 0 → Value.arith .multiply (.str s) (.int n) = .ok (.str "")) := by
  refine ⟨fun p σ host builtins limits world => ⟨fun m behind reached => reached.heard, ?_, ?_⟩,
    Value.add_str, fun s n => ⟨Value.repeated_eq s n.toInt, rfl, fun negative => ?_⟩⟩
  · intro m state reached
    obtain ⟨large, constants, short⟩ := p.textBound_spec state.2
    have all := (reached.within short).all (host.within_keeps large constants)
      (Machine.initial_all _ limits)
    exact ⟨all.stack, fun id v member => all.locals _ member⟩
  · exact p.run_heard host builtins limits world
  · have below := Int64.lt_iff_toInt_lt.mp negative
    rw [Int64.toInt_zero] at below
    exact if_pos (.inl below)

end LessonScript
