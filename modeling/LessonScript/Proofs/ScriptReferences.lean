import LessonScript.Proofs.Relisting
import LessonScript.Proofs.ScriptEntries

/-!
What the code of a script refers to.

The code of a part of a script refers to the literals of that part in the order in which they are
collected, and to its names, and each of its instructions can be carried over to another program
by way of a listing (`Program.Refers`).  Pieces of code can be put together, so there is one case
for each kind of node.
-/

namespace LessonScript

open Assembly

/-- The operand of the instruction, if it has one, is a word of 32 bits.  An instruction of the
machine has no room for a larger one, and the number of a listing is read as such a word. -/
def Opcode.OperandFits (op : Opcode) : Prop :=
  ∀ n ∈ op.operand?, n < 0x100000000

instance : DecidablePred Opcode.OperandFits :=
  fun op => inferInstanceAs (Decidable (∀ n ∈ op.operand?, n < 0x100000000))

namespace Assembly

variable {mnemonic : String}

theorem tables_of_numbered? {make : Nat → Opcode} (known : numbered? mnemonic = some make)
    (n : Nat) : (make n).usesConstant = false ∧ (make n).usesName = false := by
  rcases eq_of_numbered? known with
    ⟨_, rfl⟩ | ⟨_, rfl⟩ | ⟨_, rfl⟩ | ⟨_, rfl⟩ | ⟨_, rfl⟩ | ⟨_, rfl⟩ | ⟨_, rfl⟩
  all_goals exact ⟨rfl, rfl⟩

theorem operand?_of_numbered? {make : Nat → Opcode} (known : numbered? mnemonic = some make)
    (n : Nat) : (make n).operand? = some n := by
  rcases eq_of_numbered? known with
    ⟨_, rfl⟩ | ⟨_, rfl⟩ | ⟨_, rfl⟩ | ⟨_, rfl⟩ | ⟨_, rfl⟩ | ⟨_, rfl⟩ | ⟨_, rfl⟩
  all_goals rfl

theorem tables_of_bare? {op : Opcode} (known : bare? mnemonic = some op) :
    op.usesConstant = false ∧ op.usesName = false := by
  unfold bare? at known
  split at known <;> cases known <;> exact ⟨rfl, rfl⟩

end Assembly

namespace Program

def constantOf? (p : Program) : Opcode → Option Value
  | .loadConst index => p.constants[index]?
  | _ => none

def nameOf? (p : Program) : Opcode → Option String
  | .loadName index | .loadFast index | .storeName index | .storeFast index => p.names[index]?
  | _ => none

theorem referred_eq_none {p : Program} {op : Opcode} (constant : op.usesConstant = false)
    (name : op.usesName = false) : p.constantOf? op = none ∧ p.nameOf? op = none := by
  cases op with
  | loadConst => cases constant
  | loadName | loadFast | storeName | storeFast => cases name
  | _ => exact ⟨rfl, rfl⟩

/-- Read from a listing of the program, the instruction becomes one of any other program. -/
def Carriable (p : Program) (op : Opcode) : Prop :=
  ∀ q, ∃ q' op', Carries p q op q' op'

/-- The first tables are the second with what the code refers to: its literals stand in front, in
order, and its names somewhere. -/
structure Refers (p : Program) (code : List Instruction) (before after : Tables) : Prop where
  constants : before.literals.map Literal.value =
    code.filterMap (p.constantOf? ·.op) ++ after.literals.map Literal.value
  names : ∀ id, id ∈ before.names ↔ id ∈ code.filterMap (p.nameOf? ·.op) ∨ id ∈ after.names
  carriable : ∀ instruction ∈ code, instruction.op.OperandFits → p.Carriable instruction.op

section Refers

variable {p : Program} {t before between after : Tables} {code code' : List Instruction}
  {ls : List Literal} {ids : List String} {line : Nat}

theorem Refers.nil : p.Refers [] t t :=
  ⟨rfl, by simp, nofun⟩

theorem Refers.append (first : p.Refers code before between)
    (second : p.Refers code' between after) : p.Refers (code ++ code') before after := by
  refine ⟨?_, ?_, List.forall_mem_append.mpr ⟨first.carriable, second.carriable⟩⟩
  · rw [first.constants, second.constants, List.filterMap_append, List.append_assoc]
  · intro id
    rw [first.names, second.names, List.filterMap_append, List.mem_append, or_assoc]

theorem Refers.of_names {ids' : List String} (refers : p.Refers code ⟨ls, ids⟩ after)
    (same : ∀ id, id ∈ ids' ↔ id ∈ ids) : p.Refers code ⟨ls, ids'⟩ after :=
  ⟨refers.constants, fun id => (same id).trans (refers.names id), refers.carriable⟩

theorem Refers.plain {op : Opcode} (constant : op.usesConstant = false)
    (name : op.usesName = false) (carriable : op.OperandFits → p.Carriable op) :
    p.Refers [⟨op, line⟩] t t := by
  obtain ⟨noConstant, noName⟩ := referred_eq_none (p := p) constant name
  refine ⟨by simp [noConstant], by simp [noName], ?_⟩
  intro instruction member
  rw [List.mem_singleton.mp member]
  exact carriable

theorem Refers.bare {mnemonic : String} {op : Opcode} (known : bare? mnemonic = some op) :
    p.Refers [⟨op, line⟩] t t := by
  obtain ⟨constant, name⟩ := tables_of_bare? known
  exact .plain constant name fun _ _ => ⟨_, _, .bare known⟩

theorem Refers.arith (op : ArithOp) : p.Refers [⟨.arith op, line⟩] t t := by
  have known : bare? (Opcode.arithName op) = some (.arith op) := by cases op <;> rfl
  exact .bare known

theorem Refers.compare (op : CompareOp) : p.Refers [⟨.compare op, line⟩] t t :=
  .plain rfl rfl fun _ _ => ⟨_, _, .comparison op⟩

theorem Refers.numbered {mnemonic : String} {make : Nat → Opcode}
    (known : numbered? mnemonic = some make) (n : Nat) : p.Refers [⟨make n, line⟩] t t := by
  obtain ⟨constant, name⟩ := tables_of_numbered? known n
  have operand := operand?_of_numbered? known n
  exact .plain constant name fun fits _ => ⟨_, _, .numbered known (fits n operand)⟩

theorem Refers.call (count : Nat) : p.Refers [⟨.call count, line⟩] t t := by
  have known : numbered? "CALL_FUNCTION" = some .call := rfl
  exact .numbered known count

theorem Refers.jump (target : Nat) : p.Refers [⟨.jump target, line⟩] t t := by
  have known : numbered? "JUMP_ABSOLUTE" = some .jump := rfl
  exact .numbered known target

theorem Refers.popJumpIf (truth : Bool) (target : Nat) :
    p.Refers [⟨.popJumpIf truth target, line⟩] t t := by
  have known : numbered? (Opcode.popJumpIf truth target).mnemonic = some (.popJumpIf truth) := by
    cases truth <;> rfl
  exact .numbered known target

theorem Refers.jumpIfOrPop (truth : Bool) (target : Nat) :
    p.Refers [⟨.jumpIfOrPop truth target, line⟩] t t := by
  have known : numbered? (Opcode.jumpIfOrPop truth target).mnemonic =
      some (.jumpIfOrPop truth) := by
    cases truth <;> rfl
  exact .numbered known target

theorem Refers.forIter (target : Nat) : p.Refers [⟨.forIter target, line⟩] t t := by
  have known : numbered? "FOR_ITER" = some .forIter := rfl
  exact .numbered known target

theorem Refers.popTop : p.Refers [⟨.popTop, line⟩] t t := by
  have known : bare? "POP_TOP" = some .popTop := rfl
  exact .bare known

end Refers

section Code

structure Lists (p : Program) (t : Tables) : Prop extends Uses p t where
  entries : t.Listable

variable {p : Program} {t : Tables}

theorem Refers.load (lists : p.Lists t) {l : Literal} (known : l ∈ t.literals) (line : Nat)
    (ls : List Literal) (ids : List String) :
    p.Refers [⟨t.load l, line⟩] ⟨l :: ls, ids⟩ ⟨ls, ids⟩ := by
  have entry := lists.constant known
  have constant : p.constantOf? (t.load l) = some l.value := entry
  refine ⟨by simp [constant], by simp [Tables.load, nameOf?], ?_⟩
  intro instruction member _ q
  rw [List.mem_singleton.mp member]
  exact ⟨_, _, .constant entry (lists.entries.literals l known)⟩

theorem Refers.name (lists : p.Lists t) {mnemonic id : String} {make : Nat → Opcode}
    (names : named? mnemonic = some make) (known : id ∈ t.names) (line : Nat) (ls : List Literal)
    (ids : List String) :
    p.Refers [⟨make (t.names.idxOf id), line⟩] ⟨ls, id :: ids⟩ ⟨ls, ids⟩ := by
  have entry := lists.name known
  have referred : p.constantOf? (make (t.names.idxOf id)) = none ∧
      p.nameOf? (make (t.names.idxOf id)) = some id := by
    rcases eq_of_named? names with ⟨_, rfl⟩ | ⟨_, rfl⟩ | ⟨_, rfl⟩ | ⟨_, rfl⟩
    all_goals exact ⟨rfl, entry⟩
  refine ⟨by simp [referred.1], by simp [referred.2], ?_⟩
  intro instruction member _ q
  rw [List.mem_singleton.mp member]
  exact ⟨_, _, .named names entry (lists.entries.names id known)⟩

theorem Refers.loadName (lists : p.Lists t) {id : String} (known : id ∈ t.names) (line : Nat)
    (ls : List Literal) (ids : List String) :
    p.Refers [⟨t.loadName id, line⟩] ⟨ls, id :: ids⟩ ⟨ls, ids⟩ := by
  have names : named? "LOAD_NAME" = some .loadName := rfl
  exact .name lists names known line ls ids

theorem Refers.storeName (lists : p.Lists t) {id : String} (known : id ∈ t.names) (line : Nat)
    (ls : List Literal) (ids : List String) :
    p.Refers [⟨t.storeName id, line⟩] ⟨ls, id :: ids⟩ ⟨ls, ids⟩ := by
  have names : named? "STORE_NAME" = some .storeName := rfl
  exact .name lists names known line ls ids

mutual

theorem code_refers (lists : p.Lists t) (e : Expr) (known : e.KnownTo t) (base : Nat)
    (ls : List Literal) (ids : List String) :
    p.Refers (e.code t base) ⟨e.literalsBefore ls, e.namesBefore ids⟩ ⟨ls, ids⟩ := by
  cases e with
  | literal line l => exact .load lists known line ls ids
  | name line id => exact .loadName lists known line ls ids
  | negate line e =>
      have bare : bare? "UNARY_NEGATIVE" = some .negate := rfl
      exact (code_refers lists e known base ls ids).append (.bare bare)
  | complement line e =>
      have bare : bare? "UNARY_NOT" = some .complement := rfl
      exact (code_refers lists e known base ls ids).append (.bare bare)
  | arith line op l r =>
      exact ((code_refers lists l known.1 base _ _).append
        (code_refers lists r known.2 _ ls ids)).append (.arith op)
  | compare line op l r =>
      exact ((code_refers lists l known.1 base _ _).append
        (code_refers lists r known.2 _ ls ids)).append (.compare op)
  | both line l r =>
      exact (code_refers lists l known.1 base _ _).append
        ((Refers.jumpIfOrPop false _).append (code_refers lists r known.2 _ ls ids))
  | either line l r =>
      exact (code_refers lists l known.1 base _ _).append
        ((Refers.jumpIfOrPop true _).append (code_refers lists r known.2 _ ls ids))
  | call line callee args =>
      exact ((code_refers lists callee known.1 base _ _).append
        (codeOfAll_refers lists args known.2 _ ls ids)).append (.call args.length)

theorem codeOfAll_refers (lists : p.Lists t) (es : List Expr) (known : AllKnownTo t es)
    (base : Nat) (ls : List Literal) (ids : List String) :
    p.Refers (codeOfAll t base es) ⟨literalsOfAllBefore es ls, namesOfAllBefore es ids⟩
      ⟨ls, ids⟩ := by
  cases es with
  | nil => exact .nil
  | cons e es =>
      exact (code_refers lists e known.1 base _ _).append
        (codeOfAll_refers lists es known.2 _ ls ids)

end

/-- A name in front of those behind an expression is in front of those of the expression too. -/
theorem mem_namesBefore_cons (lists : p.Lists t) (e : Expr) (known : e.KnownTo t)
    (id x : String) (ids : List String) :
    x ∈ e.namesBefore (id :: ids) ↔ x = id ∨ x ∈ e.namesBefore ids := by
  have more := (code_refers lists e known 0 [] (id :: ids)).names x
  have less := (code_refers lists e known 0 [] ids).names x
  dsimp only at more less
  rw [more, less, List.mem_cons, or_left_comm]

theorem stmtCode_refers (lists : p.Lists t) (s : Stmt) (known : s.KnownTo t) (loop : LoopFrame)
    (base : Nat) (ls : List Literal) (ids : List String) :
    p.Refers (s.code t loop base) ⟨s.literalsBefore ls, s.namesBefore ids⟩ ⟨ls, ids⟩ := by
  induction s generalizing loop base ls ids with
  | skip => exact .nil
  | seq first second ihFirst ihSecond =>
      exact (ihFirst known.1 loop base _ _).append (ihSecond known.2 loop _ ls ids)
  | evaluate line e => exact (code_refers lists e known base ls ids).append .popTop
  | assign line id e =>
      have code := (code_refers lists e known.2 base ls (id :: ids)).append
        (.storeName lists known.1 line ls ids)
      refine code.of_names fun x => ?_
      rw [mem_namesBefore_cons lists e known.2]
      exact List.mem_cons
  | augment line id op opLine e =>
      have ending : p.Refers [⟨.arith op, opLine⟩, ⟨t.storeName id, line⟩] ⟨ls, id :: ids⟩
          ⟨ls, ids⟩ :=
        (Refers.arith op).append (.storeName lists known.1 line ls ids)
      have value := (code_refers lists e known.2 (base + 1) ls (id :: ids)).append ending
      have code := (Refers.loadName lists known.1 line _ _).append value
      refine code.of_names fun x => ?_
      -- The name stands in front once, although the code brings it up twice.
      rw [List.mem_cons, mem_namesBefore_cons lists e known.2, or_self_left]
      exact List.mem_cons
  | breakLoop line =>
      have jump : p.Refers [⟨.jump loop.stop, line⟩] ⟨ls, ids⟩ ⟨ls, ids⟩ := .jump _
      rw [Stmt.code]
      split
      · exact Refers.popTop.append jump
      · exact jump
  | continueLoop line => exact .jump _
  | ifThen line test body ih =>
      exact (code_refers lists test known.1 base _ _).append
        ((Refers.popJumpIf false _).append (ih known.2 loop _ ls ids))
  | ifElse line test body elseLine orelse ihBody ihElse =>
      exact (code_refers lists test known.1 base _ _).append
        ((Refers.popJumpIf false _).append ((ihBody known.2.1 loop _ _ _).append
          ((Refers.jump _).append (ihElse known.2.2 loop _ ls ids))))
  | whileLoop line test body ih =>
      exact (code_refers lists test known.1 base _ _).append
        ((Refers.popJumpIf false _).append ((ih known.2 _ _ ls ids).append (.jump base)))
  | forLoop line id iterable body ih =>
      have getIter : bare? "GET_ITER" = some .getIter := rfl
      exact (code_refers lists iterable known.2.1 base _ _).append
        ((Refers.bare getIter).append ((Refers.forIter _).append
          ((Refers.storeName lists known.1 line _ _).append
            ((ih known.2.2 _ _ ls ids).append (.jump _)))))

end Code

theorem ofScript_refers {script : Script} (entries : (Tables.ofStmt script.body).Listable) :
    (ofScript script).Refers (ofScript script).code.toList
      ⟨script.body.literalsBefore [.nothing], script.body.namesBefore []⟩ ⟨[], []⟩ := by
  have lists : (ofScript script).Lists (.ofStmt script.body) :=
    ⟨ofScript_uses script, entries⟩
  obtain ⟨known, nothing⟩ := Tables.ofStmt_knows script.body
  have returnValue : bare? "RETURN_VALUE" = some .returnValue := rfl
  rw [code_ofScript]
  exact (stmtCode_refers lists script.body known .outermost 0 _ _).append
    ((Refers.load lists nothing script.lastLine [] []).append (.bare returnValue))

end Program

end LessonScript
