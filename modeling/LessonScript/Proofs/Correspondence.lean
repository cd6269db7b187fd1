import LessonScript.Program.Listing
import LessonScript.Proofs.RunSteps

/-!
Programs that differ only in the order of their tables.

Two instructions match when they are the same or refer to the same constant or the same name
(`Program.Matches`).  Programs whose instructions match do the same step by step, so every run of
the one is a run of the other (`Program.Corresponds.run_eq`); only the lines in an error are those
of the program that ran.
-/

namespace LessonScript

def Error.withoutLine (error : Error) : Error :=
  { error with site := error.site.map fun site => { site with line := none } }

/-- The report of a run with no line in its error: the fault stays, with its offset and its
opcode, and so do the steps, the local bindings and the state of the host. -/
def RunReport.withoutLines {σ : Type} (report : RunReport σ) : RunReport σ :=
  { report with result := report.result.mapError Error.withoutLine }

theorem RunReport.withoutLines_error {σ : Type} (error : Error) (steps : Nat) (locals : Locals)
    (world : σ) :
    RunReport.withoutLines ⟨.error error, steps, locals, world⟩ =
      ⟨.error error.withoutLine, steps, locals, world⟩ :=
  rfl

namespace Program

/-- The instructions, one of each program, are the same or refer to the same constant or name. -/
inductive Matches (p q : Program) : Opcode → Opcode → Prop
  | loadConst {i j : Nat} {v : Value} (left : p.constants[i]? = some v)
      (right : q.constants[j]? = some v) : Matches p q (.loadConst i) (.loadConst j)
  | loadName {i j : Nat} {id : String} (left : p.names[i]? = some id)
      (right : q.names[j]? = some id) : Matches p q (.loadName i) (.loadName j)
  | loadFast {i j : Nat} {id : String} (left : p.names[i]? = some id)
      (right : q.names[j]? = some id) : Matches p q (.loadFast i) (.loadFast j)
  | storeName {i j : Nat} {id : String} (left : p.names[i]? = some id)
      (right : q.names[j]? = some id) : Matches p q (.storeName i) (.storeName j)
  | storeFast {i j : Nat} {id : String} (left : p.names[i]? = some id)
      (right : q.names[j]? = some id) : Matches p q (.storeFast i) (.storeFast j)
  | same {op : Opcode} (constant : op.usesConstant = false) (name : op.usesName = false) :
      Matches p q op op

/-- The programs have matching instructions at the same offsets. -/
structure Corresponds (p q : Program) : Prop where
  length : q.length = p.length
  instructions : ∀ {offset : Nat} {a b : Instruction}, p.code[offset]? = some a →
    q.code[offset]? = some b → Matches p q a.op b.op

section Matches

variable {p q : Program} {op op' : Opcode}

theorem Matches.mnemonic_eq (same : Matches p q op op') : op'.mnemonic = op.mnemonic := by
  cases same <;> rfl

theorem Matches.operandText?_eq (same : Matches p q op op') :
    q.operandText? op' = p.operandText? op := by
  cases same with
  | loadConst left right | loadName left right | loadFast left right | storeName left right
  | storeFast left right =>
      unfold operandText?
      dsimp only
      rw [left, right]
      rfl
  | same constant name =>
      cases op with
      | loadConst => cases constant
      | loadName | loadFast | storeName | storeFast => cases name
      | _ => rfl

theorem Matches.listingLine_eq (same : Matches p q op op') :
    q.listingLine op' = p.listingLine op := by
  rw [listingLine, listingLine, same.operandText?_eq, same.mnemonic_eq]

theorem constant?_of_entry {i : Nat} {v : Value} (entry : p.constants[i]? = some v) :
    p.constant? i = .ok v := by
  rw [constant?, entry]

theorem name?_of_entry {i : Nat} {id : String} (entry : p.names[i]? = some id) :
    p.name? i = .ok id := by
  rw [name?, entry]

theorem jump?_eq (length : q.length = p.length) (m : Machine) (target : Nat) :
    m.jump? q target = m.jump? p target := by
  rw [Machine.jump?, Machine.jump?, length]

theorem Matches.perform?_eq (same : Matches p q op op') (length : q.length = p.length)
    (builtins : BuiltinSet) (m : Machine) :
    m.perform? q builtins op' = m.perform? p builtins op := by
  cases same with
  | loadConst left right =>
      simp only [Machine.perform?, constant?_of_entry left, constant?_of_entry right]
  | loadName left right | loadFast left right | storeName left right | storeFast left right =>
      simp only [Machine.perform?, name?_of_entry left, name?_of_entry right, Opcode.name]
  | same constant name =>
      have jumps := jump?_eq length
      cases op with
      | loadConst => cases constant
      | loadName | loadFast | storeName | storeFast => cases name
      | jump | popJumpIf | jumpIfOrPop => simp only [Machine.perform?, jumps]
      | forIter => simp only [Machine.perform?, Machine.forIter?, jumps]
      | _ => rfl

theorem Matches.dispatch_eq {σ : Type} (same : Matches p q op op') (length : q.length = p.length)
    (builtins : BuiltinSet) (host : Host σ) (m : Machine) (world : σ) :
    Machine.dispatch q builtins host m world op' = Machine.dispatch p builtins host m world op := by
  have performed := same.perform?_eq length builtins m
  cases same with
  | @same op =>
      cases op with
      | call => rfl
      | _ => exact congrArg (·, world) performed
  | _ => exact congrArg (·, world) performed

end Matches

namespace Corresponds

variable {p q : Program}

theorem code_cases (corresponds : p.Corresponds q) (offset : Nat) :
    (p.code[offset]? = none ∧ q.code[offset]? = none) ∨
      ∃ a b, p.code[offset]? = some a ∧ q.code[offset]? = some b ∧ Matches p q a.op b.op := by
  have length : q.code.size = p.code.size := corresponds.length
  by_cases within : offset < p.code.size
  · have within' : offset < q.code.size := by omega
    have left := Array.getElem?_eq_getElem within
    have right := Array.getElem?_eq_getElem within'
    exact .inr ⟨_, _, left, right, corresponds.instructions left right⟩
  · exact .inl ⟨Array.getElem?_eq_none (by omega), Array.getElem?_eq_none (by omega)⟩

theorem withoutLine_siteOf {a b : Instruction} (same : Matches p q a.op b.op) (fault : Fault)
    (offset : Nat) :
    Error.withoutLine ⟨fault, some (siteOf b offset)⟩ =
      Error.withoutLine ⟨fault, some (siteOf a offset)⟩ := by
  simp only [Error.withoutLine, siteOf, Option.map_some, same.mnemonic_eq]

theorem runFrom_eq {σ : Type} (corresponds : p.Corresponds q) (builtins : BuiltinSet)
    (host : Host σ) (budget steps : Nat) (m : Machine) (world : σ) :
    (q.runFrom builtins host budget steps m world).withoutLines =
      (p.runFrom builtins host budget steps m world).withoutLines := by
  induction budget generalizing steps m world with
  | zero =>
      unfold runFrom
      rcases corresponds.code_cases m.next with ⟨left, right⟩ | ⟨a, b, left, right, same⟩
      · rw [left, right]
      · rw [left, right]
        rw [RunReport.withoutLines_error, RunReport.withoutLines_error, withoutLine_siteOf same]
  | succ budget ih =>
      unfold runFrom
      rcases corresponds.code_cases m.next with ⟨left, right⟩ | ⟨a, b, left, right, same⟩
      · rw [left, right]
      · rw [left, right]
        dsimp only
        rw [same.dispatch_eq corresponds.length]
        rcases Machine.dispatch p builtins host { m with next := m.next + 1 } world a.op with
          ⟨fault | flow, behind⟩
        · rw [RunReport.withoutLines_error, RunReport.withoutLines_error, withoutLine_siteOf same]
        · cases flow with
          | goOn after => exact ih _ _ _
          | finish v after => rfl

/-- Programs that correspond run alike under all limits, builtins and hosts: with the same result
or fault at the same offset and opcode, the same steps, local bindings and effects on the host. -/
theorem run_eq {σ : Type} (corresponds : p.Corresponds q) (limits : Limits) (builtins : BuiltinSet)
    (host : Host σ) (world : σ) :
    (q.run limits builtins host world).withoutLines =
      (p.run limits builtins host world).withoutLines :=
  run_related (R := fun report report' => report'.withoutLines = report.withoutLines)
    (fun _ _ same => (congrArg RunReport.steps same :))
    (fun budget => corresponds.runFrom_eq builtins host budget 0 (.initial limits) world) rfl

theorem listing_eq (corresponds : p.Corresponds q) : q.listing = p.listing := by
  have length : q.code.size = p.code.size := corresponds.length
  apply List.ext_getElem
  · simp [listing, length]
  · intro offset within within'
    have left : offset < p.code.size := by simpa [listing] using within'
    have right : offset < q.code.size := by simpa [listing] using within
    have same := corresponds.instructions (Array.getElem?_eq_getElem left)
      (Array.getElem?_eq_getElem right)
    simpa [listing] using same.listingLine_eq

end Corresponds

end Program

end LessonScript
