import LessonScript.Proofs.CallResults
import LessonScript.Proofs.Instructions
import LessonScript.Proofs.RunSteps

/-!
Compiled code never goes wrong.

A machine fits the shapes of a program when its stack has the shape of the next instruction
and no iteration is bound to a name.  One instruction of a well shaped program leads from a
fitting machine to a fitting machine, ends the run with `None`, or fails with a fault that is
the script's own (`Machine.dispatch_safe`).  The rest follows by induction over the run.
-/

namespace LessonScript

/-- No name stands for an iteration. -/
def Locals.Plain (locals : Locals) : Prop :=
  ∀ entry ∈ locals, entry.2.isIteration = false

theorem Locals.Plain.store {locals : Locals} (plain : locals.Plain) (id : String) {v : Value}
    (plainValue : v.isIteration = false) : (locals.store id v).Plain := by
  intro entry member
  cases Locals.mem_store member with
  | inl stored => exact stored ▸ plainValue
  | inr kept => exact plain entry kept

theorem Locals.Plain.find {locals : Locals} (plain : locals.Plain) {id : String} {v : Value}
    (found : locals.find? id = some v) : v.isIteration = false := by
  obtain ⟨front, back, rfl, _⟩ := List.lookup_eq_some_iff.mp found
  exact plain (id, v) (by simp)

theorem Locals.Plain.load_tame {locals : Locals} (plain : locals.Plain) (builtins : BuiltinSet)
    (id : String) : Tame (locals.load? builtins id) := by
  unfold Locals.load?
  split
  · rename_i v found
    exact plain.find found
  · split
    · rfl
    · exact not_false

theorem Shaped.pop {values : List Value} {k n : Nat} (shaped : Shaped values (.work k (n + 1))) :
    ∃ v rest, values = v :: rest ∧ v.isIteration = false ∧ Shaped rest (.work k n) := by
  cases shaped with
  | temp plain rest => exact ⟨_, _, rfl, plain, rest⟩

theorem Shaped.popIteration {values : List Value} {k : Nat}
    (shaped : Shaped values (.work (k + 1) 0)) :
    ∃ i rest, values = .iter i :: rest ∧ Shaped rest (.work k 0) := by
  cases shaped with
  | iteration i rest => exact ⟨i, _, rfl, rest⟩

theorem Shaped.popMany {values : List Value} {k n count : Nat}
    (shaped : Shaped values (.work k (n + count))) :
    ∃ args rest : List Value, values = args.reverse ++ rest ∧ args.length = count ∧
      (∀ v ∈ args, v.isIteration = false) ∧ Shaped rest (.work k n) := by
  induction count generalizing values with
  | zero => exact ⟨[], values, rfl, rfl, by simp, shaped⟩
  | succ count ih =>
      obtain ⟨v, inner, rfl, plain, shapedInner⟩ := Shaped.pop shaped
      obtain ⟨args, rest, rfl, length, plainArgs, shapedRest⟩ := ih shapedInner
      refine ⟨args ++ [v], rest, by simp, by simp [length], ?_, shapedRest⟩
      intro w member
      rcases List.mem_append.mp member with inArgs | isLast
      · exact plainArgs w inArgs
      · cases List.mem_singleton.mp isLast
        exact plain

theorem Shaped.length_eq {values : List Value} {k n : Nat} (shaped : Shaped values (.work k n)) :
    values.length = k + n := by
  generalize same : Shape.work k n = shape at shaped
  induction shaped generalizing k n with
  | empty => cases same; rfl
  | iteration i _ ih => cases same; simp [ih rfl]
  | temp _ _ ih => cases same; simp [ih rfl]; omega
  | ending => cases same

theorem Shaped.iterations {values : List Value} {k : Nat} (shaped : Shaped values (.work k 0)) :
    ∀ v ∈ values, v.isIteration = true := by
  induction k generalizing values with
  | zero =>
      cases shaped
      simp
  | succ k ih =>
      rcases shaped.popIteration with ⟨i, rest, rfl, shapedRest⟩
      intro v member
      rcases List.mem_cons.mp member with rfl | inRest
      · rfl
      · exact ih shapedRest v inRest

/-- The stack has the shape of the next instruction, and the bindings are plain. -/
structure Machine.Fits (m : Machine) (shapeAt : Nat → Option Shape) : Prop where
  shaped : ∃ shape, shapeAt m.next = some shape ∧ Shaped m.stack.values shape
  plain : m.locals.Plain

/-- The run goes on with a fitting machine, ends with `None`, or fails by the script's fault. -/
def Safe (shapeAt : Nat → Option Shape) : Except Fault Machine.Flow → Prop
  | .ok (.goOn m) => m.Fits shapeAt
  | .ok (.finish v m) => v = .nothing ∧ m.locals.Plain
  | .error fault => ¬ fault.GoesWrong

section Step

open Machine

variable {p : Program} {shapeAt : Nat → Option Shape} {values : List Value} {room next : Nat}
  {locals : Locals}

theorem push_safe {v : Value} {shape : Shape} (expected : shapeAt next = some shape)
    (shaped : Shaped (v :: values) shape) (plain : locals.Plain) :
    Safe shapeAt ((Machine.push? ⟨⟨values, room⟩, locals, next⟩ v).map .goOn) := by
  cases room with
  | zero =>
      rw [push?_of_full]
      exact not_false
  | succ room =>
      rw [push?_of_room]
      exact ⟨⟨shape, expected, shaped⟩, plain⟩

theorem Tame.map_safe {r : Except Fault Value} (tame : Tame r) {go : Value → Machine}
    (fits : ∀ v, v.isIteration = false → (go v).Fits shapeAt) :
    Safe shapeAt (r.map fun v => .goOn (go v)) := by
  cases r with
  | error fault => exact tame
  | ok v => exact fits v tame

theorem iterationOf_error {v : Value} {fault : Fault} (failed : iterationOf v = .error fault) :
    ¬ fault.GoesWrong := by
  unfold iterationOf at failed
  split at failed <;> cases failed
  exact Builtin.not_goesWrong_typeMismatch (by decide)

theorem advance_plain {i after : Iteration} {item : Value}
    (advanced : i.advance? = some (item, after)) : item.isIteration = false := by
  cases i with
  | counting next stop step =>
      simp only [Iteration.advance?, Option.ite_none_right_eq_some] at advanced
      obtain ⟨rfl, _⟩ := Prod.mk.inj (Option.some.inj advanced.2)
      rfl
  | spelling text next =>
      simp only [Iteration.advance?] at advanced
      split at advanced
      · cases advanced
      · obtain ⟨rfl, _⟩ := Prod.mk.inj (Option.some.inj advanced)
        rfl

theorem Machine.dispatch_safe {σ : Type} {host : Host σ} (sane : host.Sane)
    (well : p.WellShaped shapeAt) (builtins : BuiltinSet) (world : σ) (m : Machine)
    (fits : m.Fits shapeAt) {instruction : Instruction}
    (found : p.code[m.next]? = some instruction) :
    Safe shapeAt
      (dispatch p builtins host { m with next := m.next + 1 } world instruction.op).1 := by
  rcases m with ⟨⟨values, room⟩, locals, next⟩
  rcases fits with ⟨⟨shape, expected, shaped⟩, plain⟩
  have fit := well.fits found
  generalize instruction.op = op at fit ⊢
  dsimp only at expected shaped plain fit ⊢
  -- The shape before each kind of edge tells what is on the stack.
  cases fit with
  | loadConst entry plainValue before after =>
      cases expected.symm.trans before
      rw [dispatch_loadConst entry]
      exact push_safe after (.temp plainValue shaped) plain
  | loadEnding entry before after =>
      cases expected.symm.trans before
      cases shaped
      rw [dispatch_loadConst entry]
      exact push_safe after .ending plain
  | @loadName index id k n entry before after =>
      cases expected.symm.trans before
      rw [dispatch_loadName entry]
      have tame := plain.load_tame builtins id
      dsimp only
      cases loaded : locals.load? builtins id with
      | error fault =>
          rw [loaded] at tame
          exact tame
      | ok v =>
          rw [loaded] at tame
          exact push_safe after (.temp tame shaped) plain
  | @storeName index id k n entry before after =>
      cases expected.symm.trans before
      rcases shaped.pop with ⟨v, rest, rfl, plainValue, shapedRest⟩
      rw [dispatch_storeName entry]
      exact ⟨⟨_, after, shapedRest⟩, plain.store id plainValue⟩
  | @arith op k n before after =>
      cases expected.symm.trans before
      rcases shaped.pop with ⟨y, inner, rfl, _, shapedInner⟩
      rcases shapedInner.pop with ⟨x, rest, rfl, _, shapedRest⟩
      rw [dispatch_arith]
      exact (Value.arith_tame op x y).map_safe fun v plainValue =>
        ⟨⟨_, after, .temp plainValue shapedRest⟩, plain⟩
  | @compare op k n before after =>
      cases expected.symm.trans before
      rcases shaped.pop with ⟨y, inner, rfl, _, shapedInner⟩
      rcases shapedInner.pop with ⟨x, rest, rfl, _, shapedRest⟩
      rw [dispatch_compare]
      exact (Value.comparison_tame op x y).map_safe fun v plainValue =>
        ⟨⟨_, after, .temp plainValue shapedRest⟩, plain⟩
  | negate before after =>
      cases expected.symm.trans before
      rcases shaped.pop with ⟨x, rest, rfl, _, shapedRest⟩
      rw [dispatch_negate]
      exact x.negate_tame.map_safe fun v plainValue =>
        ⟨⟨_, after, .temp plainValue shapedRest⟩, plain⟩
  | complement before after =>
      cases expected.symm.trans before
      rcases shaped.pop with ⟨x, rest, rfl, _, shapedRest⟩
      rw [dispatch_complement]
      exact ⟨⟨_, after, .temp rfl shapedRest⟩, plain⟩
  | @call count k n before after =>
      cases expected.symm.trans before
      rcases shaped.popMany with ⟨args, inner, rfl, rfl, plainArgs, shapedInner⟩
      rcases shapedInner.pop with ⟨callee, rest, rfl, _, shapedRest⟩
      rw [dispatch_call]
      cases callee with
      | builtin f =>
          exact (Builtin.call_tame sane world f args plainArgs).map_safe fun v plainValue =>
            ⟨⟨_, after, .temp plainValue shapedRest⟩, plain⟩
      | nothing | bool | int | float | str | range | iter => exact not_false
  | popTemp before after =>
      cases expected.symm.trans before
      rcases shaped.pop with ⟨v, rest, rfl, _, shapedRest⟩
      rw [dispatch_popTop]
      exact ⟨⟨_, after, shapedRest⟩, plain⟩
  | popIteration before after =>
      cases expected.symm.trans before
      rcases shaped.popIteration with ⟨i, rest, rfl, shapedRest⟩
      rw [dispatch_popTop]
      exact ⟨⟨_, after, shapedRest⟩, plain⟩
  | returnValue before =>
      cases expected.symm.trans before
      cases shaped
      exact ⟨rfl, plain⟩
  | jump before there =>
      cases expected.symm.trans before
      rw [dispatch_jump (Nat.le_of_lt (well.inside there))]
      exact ⟨⟨_, there, shaped⟩, plain⟩
  | popJumpIf before after there =>
      cases expected.symm.trans before
      rcases shaped.pop with ⟨v, rest, rfl, _, shapedRest⟩
      rw [dispatch_popJumpIf (Nat.le_of_lt (well.inside there))]
      refine ⟨⟨_, ?_, shapedRest⟩, plain⟩
      dsimp only
      split
      · exact there
      · exact after
  | jumpIfOrPop before after there =>
      cases expected.symm.trans before
      rcases shaped.pop with ⟨v, rest, rfl, plainValue, shapedRest⟩
      rw [dispatch_jumpIfOrPop (Nat.le_of_lt (well.inside there))]
      dsimp only
      split
      · exact ⟨⟨_, there, .temp plainValue shapedRest⟩, plain⟩
      · exact ⟨⟨_, after, shapedRest⟩, plain⟩
  | getIter before after =>
      cases expected.symm.trans before
      rcases shaped.pop with ⟨v, rest, rfl, _, shapedRest⟩
      rw [dispatch_getIter]
      cases started : iterationOf v with
      | error fault => exact iterationOf_error started
      | ok i => exact ⟨⟨_, after, .iteration i shapedRest⟩, plain⟩
  | forIter before after there =>
      cases expected.symm.trans before
      rcases shaped.popIteration with ⟨i, rest, rfl, shapedRest⟩
      cases advanced : i.advance? with
      | none =>
          rw [dispatch_forIter_end (Nat.le_of_lt (well.inside there)) advanced]
          exact ⟨⟨_, there, shapedRest⟩, plain⟩
      | some pair =>
          rcases pair with ⟨item, left⟩
          rw [dispatch_forIter_item advanced]
          exact push_safe after (.temp (advance_plain advanced) (.iteration left shapedRest)) plain

end Step

/-- The number of values that an instruction takes from the stack or looks at. -/
def Opcode.needs : Opcode → Nat
  | .storeName _ | .storeFast _ | .negate | .complement | .popTop | .returnValue
  | .popJumpIf .. | .jumpIfOrPop .. | .getIter | .forIter _ => 1
  | .arith _ | .compare _ => 2
  | .call count => count + 1
  | .loadConst _ | .loadName _ | .loadFast _ | .jump _ | .unknown .. => 0

/-- The operand is the index of a constant, a name or an instruction that exists; the end of
the program is a target too. -/
structure Program.InRange (p : Program) (op : Opcode) : Prop where
  constant : op.usesConstant = true → ∀ n, op.operand? = some n → n < p.constants.size
  name : op.usesName = true → ∀ n, op.operand? = some n → n < p.names.size
  target : ∀ n, op.target? = some n → n ≤ p.length

/-- The number of values on a stack of the shape. -/
def Shape.depth : Shape → Nat
  | .work loops temps => loops + temps
  | .ending => 1

theorem Shaped.depth_eq {values : List Value} {shape : Shape} (shaped : Shaped values shape) :
    values.length = shape.depth := by
  cases shape with
  | work loops temps => exact shaped.length_eq
  | ending =>
      cases shaped
      rfl

section Reliance

variable {p : Program} {shapeAt : Nat → Option Shape} {here : Nat}

theorem Opcode.Fits.inRange (well : p.WellShaped shapeAt) {op : Opcode}
    (fits : op.Fits p shapeAt here) : p.InRange op := by
  cases fits with
  | loadConst found | loadEnding found =>
      refine ⟨fun _ n same => ?_, (by simp [Opcode.usesName]), (by simp [Opcode.target?])⟩
      cases same
      exact (Array.getElem?_eq_some_iff.mp found).1
  | loadName found | storeName found =>
      refine ⟨(by simp [Opcode.usesConstant]), fun _ n same => ?_, (by simp [Opcode.target?])⟩
      cases same
      exact (Array.getElem?_eq_some_iff.mp found).1
  | jump _ there | popJumpIf _ _ there | jumpIfOrPop _ _ there | forIter _ _ there =>
      refine ⟨(by simp [Opcode.usesConstant]), (by simp [Opcode.usesName]), fun n same => ?_⟩
      cases same
      exact Nat.le_of_lt (well.inside there)
  | arith | compare | negate | complement | call | popTemp | popIteration | returnValue | getIter =>
      exact ⟨by simp [Opcode.usesConstant], by simp [Opcode.usesName], by simp [Opcode.target?]⟩

theorem Opcode.Fits.needs_le {op : Opcode} (fits : op.Fits p shapeAt here) {shape : Shape}
    (expected : shapeAt here = some shape) : op.needs ≤ shape.depth := by
  cases fits with
  | loadConst | loadEnding | loadName | jump => exact Nat.zero_le _
  | returnValue before =>
      cases expected.symm.trans before
      exact Nat.le_refl 1
  | storeName _ before | arith before | compare before | negate before | complement before
  | call before | popTemp before | popIteration before | popJumpIf before | jumpIfOrPop before
  | getIter before | forIter before =>
      cases expected.symm.trans before
      simp only [Opcode.needs, Shape.depth]
      omega

theorem Opcode.Fits.arguments {count : Nat} (fits : (Opcode.call count).Fits p shapeAt here)
    {shape : Shape} (expected : shapeAt here = some shape) {values : List Value}
    (shaped : Shaped values shape) : ∀ v ∈ values.take count, v.isIteration = false := by
  cases fits with
  | call before =>
      cases expected.symm.trans before
      rcases shaped.popMany with ⟨args, rest, rfl, length, plain, _⟩
      intro v member
      rw [List.take_left' (by simpa using length)] at member
      exact plain v (List.mem_reverse.mp member)

end Reliance

/-- What holds of a machine between any two instructions of a script: there is a next
instruction, its operand is in range, and the stack holds what it needs; no argument of a call
and no binding is an iteration; and where a statement begins, the stack holds one iteration
for each loop over an iterable around the statement, and nothing else. -/
structure Machine.Sound (m : Machine) (p : Program) (script : Script) : Prop where
  onward : ∃ instruction, p.code[m.next]? = some instruction ∧ p.InRange instruction.op ∧
    instruction.op.needs ≤ m.stack.depth
  arguments : ∀ count line, p.code[m.next]? = some ⟨.call count, line⟩ →
    ∀ v ∈ m.stack.values.take count, v.isIteration = false
  opening : ∀ loops, (m.next, loops) ∈ script.body.openings false 0 0 →
    m.stack.depth = loops ∧ ∀ v ∈ m.stack.values, v.isIteration = true
  bindings : m.locals.Plain

theorem Machine.Fits.sound {script : Script} {m : Machine}
    (fits : m.Fits fun i => script.shapes[i]?) : m.Sound (.ofScript script) script := by
  have well := Program.ofScript_wellShaped script
  rcases fits with ⟨⟨shape, expected, shaped⟩, plain⟩
  have within : m.next < (Program.ofScript script).code.size := well.inside expected
  refine ⟨⟨_, Array.getElem?_eq_getElem within, ?_, ?_⟩, ?_, ?_, plain⟩
  · exact (well.fits (Array.getElem?_eq_getElem within)).inRange well
  · have needed := (well.fits (Array.getElem?_eq_getElem within)).needs_le expected
    rwa [← shaped.depth_eq] at needed
  · intro count line found
    exact (well.fits found).arguments expected shaped
  · intro loops opening
    have atOpening := script.body.shape_opening (lies_getElem? script.shapes).left
      script.shape_end opening
    cases expected.symm.trans atOpening
    exact ⟨shaped.length_eq, shaped.iterations⟩

/-- A report of a run that did not go wrong: a fault is the script's own, a result is `None`,
and no binding is an iteration. -/
structure RunReport.Sound {σ : Type} (report : RunReport σ) : Prop where
  fault : ∀ error, report.result = .error error → ¬ error.fault.GoesWrong
  result : ∀ v, report.result = .ok v → v = .nothing
  bindings : report.locals.Plain

section Runs

variable {σ : Type} {p : Program} {shapeAt : Nat → Option Shape} {host : Host σ}

theorem Machine.initial_fits (well : p.WellShaped shapeAt) (limits : Limits) :
    (Machine.initial limits).Fits shapeAt :=
  ⟨⟨_, well.start, .empty⟩, fun _ member => absurd member (List.not_mem_nil)⟩

theorem Program.Reaches.fits (sane : host.Sane) (well : p.WellShaped shapeAt)
    {builtins : BuiltinSet} {start m : Machine} {world behind : σ} (fits : start.Fits shapeAt)
    (reached : p.Reaches builtins host start world m behind) : m.Fits shapeAt := by
  induction reached with
  | start => exact fits
  | @step m after before behind instruction _ found stepped ih =>
      have safe := Machine.dispatch_safe sane well builtins before m ih found
      rw [stepped] at safe
      exact safe

theorem Program.runFrom_sound (sane : host.Sane) (well : p.WellShaped shapeAt)
    (builtins : BuiltinSet) (budget steps : Nat) (m : Machine) (world : σ)
    (fits : m.Fits shapeAt) : (p.runFrom builtins host budget steps m world).Sound := by
  have noWrongLimit (limit : LimitFault) : ¬ (Fault.limit limit).GoesWrong := not_false
  induction budget generalizing steps m world with
  | zero =>
      unfold Program.runFrom
      split
      · exact ⟨by simp, by simp, fits.plain⟩
      · refine ⟨fun error same => ?_, by simp, fits.plain⟩
        cases same
        exact noWrongLimit _
  | succ budget ih =>
      unfold Program.runFrom
      split
      · exact ⟨by simp, by simp, fits.plain⟩
      · rename_i instruction found
        have safe := Machine.dispatch_safe sane well builtins world m fits found
        split
        · rename_i after behind stepped
          rw [stepped] at safe
          exact ih (steps + 1) after behind safe
        · rename_i v after behind finished
          rw [finished] at safe
          exact ⟨by simp, fun w same => by cases same; exact safe.1, safe.2⟩
        · rename_i fault behind failed
          rw [failed] at safe
          exact ⟨fun error same => by cases same; exact safe, by simp, fits.plain⟩

end Runs

/-- Compiled code never goes wrong, whatever the host, the builtins and the limits. -/
theorem Program.compiled_never_goes_wrong {source : String} {p : Program}
    (compiled : Program.ofSource? source = .ok p) {σ : Type} {host : Host σ} (sane : host.Sane)
    (builtins : BuiltinSet) (limits : Limits) (world : σ) :
    ∃ script, Script.ofSource? source = .ok script ∧ p = .ofScript script ∧
      (∀ m behind, p.Reaches builtins host (.initial limits) world m behind → m.Sound p script) ∧
      (p.run limits builtins host world).Sound := by
  obtain ⟨script, read, rfl⟩ := Program.exists_of_ofSource? compiled
  have well := Program.ofScript_wellShaped script
  have fits := Machine.initial_fits well limits
  refine ⟨script, read, rfl, ?_, ?_⟩
  · intro m behind reached
    exact (reached.fits sane well fits).sound
  · apply Program.run_induction
    · exact fun budget => Program.runFrom_sound sane well builtins budget 0 _ world fits
    · exact ⟨by simp, by simp, fits.plain⟩

theorem Recorder.host_sane : Recorder.host.Sane := by
  intro recorder prompt fault after answer
  unfold Recorder.host at answer
  dsimp only at answer
  split at answer
  · cases answer
    exact not_false
  · cases answer

/-- A break out of one of two nested loops over iterables drops one of two iterations. -/
theorem Program.nested_loops_never_go_wrong :
    ∃ p, Program.ofSource?
        "for i in range(3):\n    for c in 'ab':\n        if i: break\n        print(c)\n" = .ok p ∧
      Recorder.host.Sane ∧
      ∃ script, p = .ofScript script ∧
        (∀ m behind, p.Reaches .standard Recorder.host (.initial .standard) (.ofInputs []) m behind →
          m.Sound p script) ∧
        (p.run .standard .standard Recorder.host (.ofInputs [])).Sound := by
  obtain ⟨p, compiled⟩ := Program.exists_of_isOk
    "for i in range(3):\n    for c in 'ab':\n        if i: break\n        print(c)\n"
    (by decide +kernel)
  obtain ⟨script, _, same, reached, sound⟩ := Program.compiled_never_goes_wrong compiled
    Recorder.host_sane .standard .standard (.ofInputs [])
  exact ⟨p, compiled, Recorder.host_sane, script, same, reached, sound⟩

end LessonScript
