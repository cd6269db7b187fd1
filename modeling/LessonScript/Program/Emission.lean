import LessonScript.Program.Basic
import LessonScript.Program.Code

/-!
The code of a script, emitted in one pass.

Each part of the tree puts its instructions behind those in front of it, and enters a constant or
name when it comes up.  A jump forward is emitted before its target is known and patched when the
place is reached; the jumps of `break` wait until their loop ends.  `Expr.emit?_eq` and
`Stmt.emit?_eq` state that every patch succeeds and that the outcome is the code of the part, with
the indices that its entries have in the tables of the whole script.
-/

namespace LessonScript

namespace Program

def put (p : Program) (op : Opcode) (line : Nat) : Program :=
  (p.emit op line).1

def patchHere? (p : Program) (jump : Nat) : Except Fault Program :=
  p.patchJump? jump p.length

def endLoop? (p : Program) (start leave : Nat) (breaks : List Nat) (line : Nat) :
    Except Fault Program := do
  let p ← (p.put (.jump start) line).patchHere? leave
  breaks.foldlM patchHere? p

end Program

mutual

def Expr.emit? : Expr → Program → Except Fault Program
  | .literal line value, p =>
    let (p, index) := p.addConstant value.value
    .ok (p.put (.loadConst index) line)
  | .name line id, p =>
    let (p, index) := p.addName id
    .ok (p.put (.loadName index) line)
  | .negate line e, p => do
    let p ← e.emit? p
    return p.put .negate line
  | .complement line e, p => do
    let p ← e.emit? p
    return p.put .complement line
  | .arith line op l r, p => do
    let p ← l.emit? p
    let p ← r.emit? p
    return p.put (.arith op) line
  | .compare line op l r, p => do
    let p ← l.emit? p
    let p ← r.emit? p
    return p.put (.compare op) line
  | .both line l r, p => do
    let p ← l.emit? p
    let (p, jump) := p.emit (.jumpIfOrPop false 0) line
    let p ← r.emit? p
    p.patchHere? jump
  | .either line l r, p => do
    let p ← l.emit? p
    let (p, jump) := p.emit (.jumpIfOrPop true 0) line
    let p ← r.emit? p
    p.patchHere? jump
  | .call line callee args, p => do
    let p ← callee.emit? p
    let p ← emitAll? args p
    return p.put (.call args.length) line

def emitAll? : List Expr → Program → Except Fault Program
  | [], p => .ok p
  | e :: es, p => do
    let p ← e.emit? p
    emitAll? es p

end

structure OpenLoop where
  start : Nat
  keepsIteration : Bool

namespace OpenLoop

def outermost : OpenLoop :=
  ⟨0, false⟩

def upTo (loop : OpenLoop) (stop : Nat) : LoopFrame :=
  ⟨loop.start, stop, loop.keepsIteration⟩

end OpenLoop

/-- Emits a statement inside the given loop.  The places of the jumps that wait for the end of the
loop are returned beside the program. -/
@[simp]
def Stmt.emit? : OpenLoop → Stmt → Program → Except Fault (Program × List Nat)
  | _, .skip, p => .ok (p, [])
  | loop, .seq first second, p => do
    let (p, breaks) ← first.emit? loop p
    let (p, more) ← second.emit? loop p
    return (p, breaks ++ more)
  | _, .evaluate line e, p => do
    let p ← e.emit? p
    return (p.put .popTop line, [])
  | _, .assign line id e, p => do
    let (p, index) := p.addName id
    let p ← e.emit? p
    return (p.put (.storeName index) line, [])
  | _, .augment line id op opLine e, p => do
    let (p, index) := p.addName id
    let p ← e.emit? (p.put (.loadName index) line)
    return ((p.put (.arith op) opLine).put (.storeName index) line, [])
  | loop, .breakLoop line, p =>
    let p := if loop.keepsIteration then p.put .popTop line else p
    let (p, jump) := p.emit (.jump 0) line
    .ok (p, [jump])
  | loop, .continueLoop line, p => .ok (p.put (.jump loop.start) line, [])
  | loop, .ifThen line test body, p => do
    let p ← test.emit? p
    let (p, jump) := p.emit (.popJumpIf false 0) line
    let (p, breaks) ← body.emit? loop p
    let p ← p.patchHere? jump
    return (p, breaks)
  | loop, .ifElse line test body elseLine orelse, p => do
    let p ← test.emit? p
    let (p, jump) := p.emit (.popJumpIf false 0) line
    let (p, breaks) ← body.emit? loop p
    let (p, leave) := p.emit (.jump 0) elseLine
    let p ← p.patchHere? jump
    let (p, more) ← orelse.emit? loop p
    let p ← p.patchHere? leave
    return (p, breaks ++ more)
  | _, .whileLoop line test body, p => do
    let start := p.length
    let p ← test.emit? p
    let (p, leave) := p.emit (.popJumpIf false 0) line
    let (p, breaks) ← body.emit? ⟨start, false⟩ p
    let p ← p.endLoop? start leave breaks line
    return (p, [])
  | _, .forLoop line id iterable body, p => do
    let p ← iterable.emit? p
    let p := p.put .getIter line
    let start := p.length
    let (p, leave) := p.emit (.forIter 0) line
    let (p, index) := p.addName id
    let (p, breaks) ← body.emit? ⟨start, true⟩ (p.put (.storeName index) line)
    let p ← p.endLoop? start leave breaks line
    return (p, [])

/-! ### The tables so far -/

theorem mem_intern_self {α : Type} [BEq α] [LawfulBEq α] (pool : List α) (x : α) :
    x ∈ intern pool x := by
  unfold intern
  split
  · exact List.contains_iff_mem.mp ‹_›
  · exact List.mem_append_right _ (List.mem_singleton_self x)

theorem idxOf_foldl_intern {α : Type} [BEq α] [LawfulBEq α] {pool : List α} {x : α}
    (known : x ∈ pool) (xs : List α) : (xs.foldl intern pool).idxOf x = pool.idxOf x := by
  induction xs generalizing pool with
  | nil => rfl
  | cons y ys ih =>
      have kept : x ∈ intern pool y ∧ (intern pool y).idxOf x = pool.idxOf x := by
        unfold intern
        split
        · exact ⟨known, rfl⟩
        · exact ⟨List.mem_append_left _ known, by rw [List.idxOf_append, if_pos known]⟩
      rw [List.foldl_cons, ih kept.1, kept.2]

theorem findIdx?_pool {α : Type} [BEq α] [LawfulBEq α] (pool : List α) (x : α) :
    pool.findIdx? (· == x) = if x ∈ pool then some (pool.idxOf x) else none := by
  split
  · rename_i known
    exact List.findIdx?_eq_some_of_exists ⟨x, known, beq_self_eq_true x⟩
  · rename_i unknown
    refine List.findIdx?_eq_none_iff.mpr fun y member => ?_
    exact beq_false_of_ne fun same => unknown (same ▸ member)

def Tables.adding (t : Tables) (literals : List Literal) (names : List String) : Tables :=
  ⟨literals.foldl intern t.literals, names.foldl intern t.names⟩

namespace Program

def ofTables (t : Tables) (code : List Instruction) : Program :=
  ⟨code.toArray, (t.literals.map Literal.value).toArray, t.names.toArray⟩

variable (t : Tables) (code : List Instruction)

theorem length_ofTables : (ofTables t code).length = code.length :=
  rfl

theorem emit_ofTables (op : Opcode) (line : Nat) :
    (ofTables t code).emit op line = (ofTables t (code ++ [⟨op, line⟩]), code.length) := by
  simp [emit, ofTables]

theorem put_ofTables (op : Opcode) (line : Nat) :
    (ofTables t code).put op line = ofTables t (code ++ [⟨op, line⟩]) := by
  rw [put, emit_ofTables]

theorem addConstant_ofTables (l : Literal) :
    (ofTables t code).addConstant l.value =
      (ofTables (t.adding [l] []) code, (t.adding [l] []).literals.idxOf l) := by
  have literal : l.value.literal?.isSome = true := by
    rw [Value.literal?_eq_some_iff.mpr rfl]
    rfl
  have same (k : Literal) : (k.value == l.value) = (k == l) := by
    rw [Bool.eq_iff_iff, beq_iff_eq, beq_iff_eq, ← Value.literal?_eq_some_iff,
      Value.literal?_eq_some_iff.mpr rfl, Option.some.injEq]
  have searched : (ofTables t code).constants.findIdx? (· == l.value) =
      t.literals.findIdx? (· == l) := by
    rw [ofTables, List.findIdx?_toArray, List.findIdx?_map]
    exact congrArg (List.findIdx? · _) (funext same)
  unfold addConstant
  rw [if_pos literal, searched, findIdx?_pool]
  unfold Tables.adding
  rw [List.foldl_cons, List.foldl_nil, List.foldl_nil, intern]
  by_cases known : l ∈ t.literals
  · rw [if_pos known, if_pos (List.contains_iff_mem.mpr known)]
  · rw [if_neg known, if_neg (mt List.contains_iff_mem.mp known), List.idxOf_append, if_neg known]
    simp [ofTables]

theorem addName_ofTables (id : String) :
    (ofTables t code).addName id =
      (ofTables (t.adding [] [id]) code, (t.adding [] [id]).names.idxOf id) := by
  have searched : (ofTables t code).names.findIdx? (· == id) = t.names.findIdx? (· == id) := by
    rw [ofTables, List.findIdx?_toArray]
  unfold addName
  rw [searched, findIdx?_pool]
  unfold Tables.adding
  rw [List.foldl_cons, List.foldl_nil, List.foldl_nil, intern]
  by_cases known : id ∈ t.names
  · rw [if_pos known, if_pos (List.contains_iff_mem.mpr known)]
  · rw [if_neg known, if_neg (mt List.contains_iff_mem.mp known), List.idxOf_append, if_neg known]
    simp [ofTables]

theorem patchHere?_ofTables {front back : List Instruction} {op patched : Opcode} {line : Nat}
    (jump stop : Nat) (split : code = front ++ [⟨op, line⟩] ++ back) (placed : front.length = jump)
    (wide : jump + 1 + back.length = stop) (jumps : op.withTarget? stop = some patched) :
    (ofTables t code).patchHere? jump = .ok (ofTables t (front ++ [⟨patched, line⟩] ++ back)) := by
  subst split placed wide
  have found : (ofTables t (front ++ [⟨op, line⟩] ++ back)).code[front.length]? =
      some ⟨op, line⟩ := by simp [ofTables]
  rw [patchHere?, patchJump?, found]
  dsimp only
  rw [length_ofTables, List.length_append, List.length_append, List.length_singleton, jumps]
  simp [ofTables]

end Program

section Entries

variable {t final : Tables} {ls : List Literal} {ids : List String}

theorem load_of_adding {l : Literal} (becomes : t.adding (l :: ls) ids = final) :
    .loadConst ((t.adding [l] []).literals.idxOf l) = final.load l := by
  rw [← becomes, Tables.load]
  exact congrArg _ (idxOf_foldl_intern (mem_intern_self ..) ls).symm

theorem idxOf_of_adding {id : String} (becomes : t.adding ls (id :: ids) = final) :
    (t.adding [] [id]).names.idxOf id = final.names.idxOf id := by
  rw [← becomes]
  exact (idxOf_foldl_intern (mem_intern_self ..) ids).symm

end Entries

/-! ### The emitted code -/

open Program

theorem length_append_code {front code : List Instruction} {base size : Nat}
    (placed : front.length = base) (length : code.length = size) :
    (front ++ code).length = base + size := by
  rw [List.length_append, placed, length]

theorem length_append_one {front : List Instruction} {base : Nat} (placed : front.length = base)
    (instruction : Instruction) : (front ++ [instruction]).length = base + 1 :=
  length_append_code placed rfl

theorem ok_bind {ε α β : Type} (a : α) (f : α → Except ε β) : (.ok a >>= f) = f a :=
  rfl

mutual

/-- An expression emitted behind other code is its code there, for the tables that come about in
the end. -/
theorem Expr.emit?_eq {t final : Tables} {ls : List Literal} {ids : List String}
    {code : List Instruction} {base : Nat} (e : Expr) (placed : code.length = base)
    (becomes : t.adding (e.literalsBefore ls) (e.namesBefore ids) = final) :
    ∃ t', e.emit? (ofTables t code) = .ok (ofTables t' (code ++ e.code final base)) ∧
      t'.adding ls ids = final := by
  cases e with
  | literal line value =>
      refine ⟨t.adding [value] [], ?_, becomes⟩
      rw [Expr.emit?, addConstant_ofTables]
      dsimp only
      rw [put_ofTables, load_of_adding becomes, Expr.code]
  | name line id =>
      refine ⟨t.adding [] [id], ?_, becomes⟩
      rw [Expr.emit?, addName_ofTables]
      dsimp only
      rw [put_ofTables, idxOf_of_adding becomes, Expr.code, Tables.loadName]
  | negate line e | complement line e =>
      obtain ⟨t', emits, becomes⟩ := e.emit?_eq placed becomes
      refine ⟨t', ?_, becomes⟩
      rw [Expr.emit?, emits, ok_bind, put_ofTables, Expr.code, List.append_assoc]
      rfl
  | arith line op l r | compare line op l r =>
      obtain ⟨_, emitsLeft, becomes⟩ := l.emit?_eq placed becomes
      have behind := length_append_code placed (l.length_code final base)
      obtain ⟨t', emitsRight, becomes⟩ := r.emit?_eq behind becomes
      refine ⟨t', ?_, becomes⟩
      rw [Expr.emit?, emitsLeft, ok_bind, emitsRight, ok_bind, put_ofTables, Expr.code]
      simp only [List.append_assoc]
      rfl
  | both line l r | either line l r =>
      obtain ⟨_, emitsLeft, becomes⟩ := l.emit?_eq placed becomes
      have jump := length_append_code placed (l.length_code final base)
      obtain ⟨t', emitsRight, becomes⟩ := r.emit?_eq (length_append_code jump rfl) becomes
      refine ⟨t', ?_, becomes⟩
      rw [Expr.emit?, emitsLeft, ok_bind, emit_ofTables, jump]
      dsimp only
      rw [emitsRight, ok_bind, patchHere?_ofTables _ _ _ (base + (l.size + r.size + 1)) rfl jump
        (by rw [r.length_code]; omega) rfl, Expr.code]
      simp only [List.append_assoc]
      rfl
  | call line callee args =>
      obtain ⟨_, emitsCallee, becomes⟩ := callee.emit?_eq placed becomes
      have behind := length_append_code placed (callee.length_code final base)
      obtain ⟨t', emitsArgs, becomes⟩ := emitAll?_eq args behind becomes
      refine ⟨t', ?_, becomes⟩
      rw [Expr.emit?, emitsCallee, ok_bind, emitsArgs, ok_bind, put_ofTables, Expr.code]
      simp only [List.append_assoc]
      rfl

theorem emitAll?_eq {t final : Tables} {ls : List Literal} {ids : List String}
    {code : List Instruction} {base : Nat} (es : List Expr) (placed : code.length = base)
    (becomes : t.adding (literalsOfAllBefore es ls) (namesOfAllBefore es ids) = final) :
    ∃ t', emitAll? es (ofTables t code) = .ok (ofTables t' (code ++ codeOfAll final base es)) ∧
      t'.adding ls ids = final := by
  cases es with
  | nil => exact ⟨t, by rw [emitAll?, codeOfAll, List.append_nil], becomes⟩
  | cons e es =>
      obtain ⟨_, emits, becomes⟩ := e.emit?_eq placed becomes
      have behind := length_append_code placed (e.length_code final base)
      obtain ⟨t', emitsRest, becomes⟩ := emitAll?_eq es behind becomes
      refine ⟨t', ?_, becomes⟩
      rw [emitAll?, emits, ok_bind, emitsRest, codeOfAll, List.append_assoc]

end

/-- The places of the jumps in the code of a statement that wait for the end of the loop around
it. -/
@[simp]
def Stmt.breakPlaces (keepsIteration : Bool) : Nat → Stmt → List Nat
  | base, .seq first second =>
    first.breakPlaces keepsIteration base ++
      second.breakPlaces keepsIteration (base + first.size keepsIteration)
  | base, .breakLoop _ => [if keepsIteration then base + 1 else base]
  | base, .ifThen _ test body => body.breakPlaces keepsIteration (base + test.size + 1)
  | base, .ifElse _ test body _ orelse =>
    body.breakPlaces keepsIteration (base + test.size + 1) ++
      orelse.breakPlaces keepsIteration (base + (test.size + 1 + body.size keepsIteration + 1))
  | _, .skip | _, .evaluate .. | _, .assign .. | _, .augment .. | _, .continueLoop _
  | _, .whileLoop .. | _, .forLoop .. => []

theorem Stmt.length_upTo (final : Tables) (loop : OpenLoop) (stop base : Nat) (stmt : Stmt) :
    (stmt.code final (loop.upTo stop) base).length = stmt.size loop.keepsIteration :=
  stmt.length_code ..

theorem Stmt.patchBreaks {t : Tables} (final : Tables) (loop : OpenLoop) {stop : Nat} (stmt : Stmt)
    {front : List Instruction} (back : List Instruction) {base : Nat} (placed : front.length = base)
    (wide : base + (stmt.size loop.keepsIteration + back.length) = stop) :
    (stmt.breakPlaces loop.keepsIteration base).foldlM patchHere?
        (ofTables t (front ++ (stmt.code final (loop.upTo 0) base ++ back))) =
      .ok (ofTables t (front ++ (stmt.code final (loop.upTo stop) base ++ back))) := by
  induction stmt generalizing front back base with
  | skip | evaluate | assign | augment | continueLoop | whileLoop | forLoop => rfl
  | seq first second ihFirst ihSecond =>
      rw [Stmt.size] at wide
      have earlier := ihFirst (second.code final (loop.upTo 0)
        (base + first.size loop.keepsIteration) ++ back) placed
        (by rw [List.length_append, length_upTo]; omega)
      have later := ihSecond back (length_append_code placed (first.length_upTo final loop stop base)) (by omega)
      simp only [List.append_assoc] at earlier later
      simp only [Stmt.breakPlaces, List.foldlM_append, Stmt.code, List.append_assoc]
      exact (congrArg (· >>= _) earlier).trans later
  | breakLoop line =>
      have only (jump : Nat) (p : Program) : [jump].foldlM patchHere? p = p.patchHere? jump :=
        bind_pure _
      obtain ⟨start, keepsIteration⟩ := loop
      rw [Stmt.breakPlaces, only]
      cases keepsIteration with
      | false =>
          change base + (1 + back.length) = stop at wide
          have patched := patchHere?_ofTables t (front ++ [⟨.jump 0, line⟩] ++ back) base stop rfl
            placed (by omega) rfl
          rw [List.append_assoc, List.append_assoc] at patched
          exact patched
      | true =>
          change base + (2 + back.length) = stop at wide
          have patched := patchHere?_ofTables t
            (front ++ [⟨.popTop, line⟩] ++ [⟨.jump 0, line⟩] ++ back) (base + 1) stop rfl
            (length_append_one placed _) (by omega) rfl
          simp only [List.append_assoc] at patched
          exact patched
  | ifThen line test body ih =>
      rw [Stmt.size] at wide
      have behind (target : Nat) : (front ++ test.code final base ++
          [Instruction.mk (.popJumpIf false target) line]).length = base + test.size + 1 :=
        length_append_code (length_append_code placed (test.length_code final base)) rfl
      have patched (target : Nat) := ih back (behind target) (by omega)
      simp only [List.append_assoc, List.singleton_append] at patched
      simp only [Stmt.breakPlaces, Stmt.code, List.append_assoc, List.cons_append]
      exact patched _
  | ifElse line test body elseLine orelse ihBody ihElse =>
      rw [Stmt.size] at wide
      have behind (target : Nat) : (front ++ test.code final base ++
          [Instruction.mk (.popJumpIf false target) line]).length = base + test.size + 1 :=
        length_append_code (length_append_code placed (test.length_code final base)) rfl
      have second (target leave : Nat) : (front ++ test.code final base ++
          [Instruction.mk (.popJumpIf false target) line] ++ (body.code final (loop.upTo stop)
            (base + test.size + 1) ++ [Instruction.mk (.jump leave) elseLine])).length =
            base + (test.size + 1 + body.size loop.keepsIteration + 1) := by
        rw [List.length_append, behind, List.length_append, length_upTo, List.length_singleton]
        omega
      have earlier (target leave : Nat) := ihBody (⟨.jump leave, elseLine⟩ ::
          orelse.code final (loop.upTo 0)
            (base + (test.size + 1 + body.size loop.keepsIteration + 1)) ++ back) (behind target)
        (by rw [List.cons_append, List.length_cons, List.length_append, length_upTo]; omega)
      have later (target leave : Nat) := ihElse back (second target leave) (by omega)
      simp only [List.append_assoc, List.cons_append, List.nil_append] at earlier later
      simp only [Stmt.breakPlaces, List.foldlM_append, Stmt.code, List.append_assoc,
        List.cons_append]
      exact (congrArg (· >>= _) (earlier _ _)).trans (later _ _)

/-- A loop ends with the jump that leaves it, `make 0` in front of the body, and those at the break
places of the body pointed to its end. -/
theorem Stmt.endLoop?_eq {t : Tables} (final : Tables) (loop : OpenLoop) (make : Nat → Opcode)
    {line leave base stop : Nat} {front back : List Instruction}
    {entered : Nat → List Instruction} (body : Stmt)
    (split : ∀ target, entered target = front ++ [⟨make target, line⟩] ++ back)
    (placed : front.length = leave) (behind : ∀ target, (entered target).length = base)
    (rest : base + (body.size loop.keepsIteration + 1) = stop)
    (jumps : (make 0).withTarget? stop = some (make stop)) :
    (ofTables t (entered 0 ++ body.code final (loop.upTo 0) base)).endLoop? loop.start leave
        (body.breakPlaces loop.keepsIteration base) line =
      .ok (ofTables t (entered stop ++ (body.code final (loop.upTo stop) base ++
        [⟨.jump loop.start, line⟩]))) := by
  have length := body.length_upTo final loop 0 base
  have inside : leave + 1 + back.length = base := by
    rw [← behind 0, split, List.length_append, List.length_append, placed, List.length_singleton]
  have whole : entered 0 ++ body.code final (loop.upTo 0) base ++ [⟨.jump loop.start, line⟩] =
      front ++ [⟨make 0, line⟩] ++
        (back ++ (body.code final (loop.upTo 0) base ++ [⟨.jump loop.start, line⟩])) := by
    rw [split]
    simp only [List.append_assoc]
  rw [endLoop?, put_ofTables, patchHere?_ofTables _ _ _ stop whole placed
    (by rw [List.length_append, length_append_one length]; omega) jumps, ok_bind,
    ← List.append_assoc, ← split]
  exact body.patchBreaks final loop _ (behind stop) rest

/-- Emitted behind other code the statement is its code there, except that the jumps at its break
places wait for the end of the loop. -/
def Stmt.Emits (final : Tables) (stmt : Stmt) : Prop :=
  ∀ {t : Tables} {ls : List Literal} {ids : List String} {code : List Instruction} {base : Nat}
    (loop : OpenLoop), code.length = base →
    t.adding (stmt.literalsBefore ls) (stmt.namesBefore ids) = final →
    ∃ t', stmt.emit? loop (ofTables t code) =
        .ok (ofTables t' (code ++ stmt.code final (loop.upTo 0) base),
          stmt.breakPlaces loop.keepsIteration base) ∧
      t'.adding ls ids = final

section Emits

variable {final : Tables} {first second body orelse : Stmt}

theorem Stmt.Emits.seq (emitsFirst : first.Emits final) (emitsSecond : second.Emits final) :
    (Stmt.seq first second).Emits final := by
  intro t ls ids code base loop placed becomes
  obtain ⟨_, emits, becomes⟩ := emitsFirst loop placed becomes
  have behind := length_append_code placed (first.length_upTo final loop 0 base)
  obtain ⟨t', emits', becomes⟩ := emitsSecond loop behind becomes
  refine ⟨t', ?_, becomes⟩
  rw [Stmt.emit?, emits, ok_bind]
  dsimp only
  rw [emits', ok_bind, Stmt.code, List.append_assoc]
  rfl

theorem Stmt.emits_augment (line : Nat) (id : String) (op : ArithOp) (opLine : Nat) (e : Expr) :
    (Stmt.augment line id op opLine e).Emits final := by
  intro t ls ids code base loop placed becomes
  have behind := length_append_code placed
    (rfl : [Instruction.mk (.loadName (final.names.idxOf id)) line].length = 1)
  obtain ⟨t', emits, becomes'⟩ := e.emit?_eq (t := t.adding [] [id]) behind becomes
  refine ⟨t', ?_, becomes'⟩
  rw [Stmt.emit?, addName_ofTables]
  dsimp only
  rw [put_ofTables, idxOf_of_adding becomes, emits, ok_bind, put_ofTables, put_ofTables, Stmt.code]
  simp only [List.append_assoc]
  rfl

theorem Stmt.emits_breakLoop (line : Nat) : (Stmt.breakLoop line).Emits final := by
  intro t ls ids code base loop placed becomes
  refine ⟨t, ?_, becomes⟩
  obtain ⟨start, keepsIteration⟩ := loop
  rw [Stmt.emit?, Stmt.code, Stmt.breakPlaces]
  cases keepsIteration with
  | false =>
      simp only [Bool.false_eq_true, if_false, emit_ofTables, placed]
      rfl
  | true =>
      simp only [if_true, put_ofTables, emit_ofTables, List.append_assoc, List.length_append, placed]
      rfl

theorem Stmt.Emits.ifThen (emitsBody : body.Emits final) (line : Nat) (test : Expr) :
    (Stmt.ifThen line test body).Emits final := by
  intro t ls ids code base loop placed becomes
  obtain ⟨_, emitsTest, becomes⟩ := test.emit?_eq placed becomes
  have jump := length_append_code placed (test.length_code final base)
  have behind := length_append_one jump ⟨.popJumpIf false 0, line⟩
  obtain ⟨t', emits, becomes⟩ := emitsBody loop behind becomes
  refine ⟨t', ?_, becomes⟩
  rw [Stmt.emit?, emitsTest, ok_bind, emit_ofTables, jump]
  dsimp only
  rw [emits, ok_bind]
  dsimp only
  rw [patchHere?_ofTables _ _ _ (base + (test.size + 1 + body.size loop.keepsIteration)) rfl
    jump (by rw [length_upTo]; omega) rfl, ok_bind, Stmt.code]
  simp only [List.append_assoc]
  rfl

theorem Stmt.Emits.ifElse (emitsBody : body.Emits final) (emitsElse : orelse.Emits final)
    (line : Nat) (test : Expr) (elseLine : Nat) :
    (Stmt.ifElse line test body elseLine orelse).Emits final := by
  intro t ls ids code base loop placed becomes
  obtain ⟨_, emitsTest, becomes⟩ := test.emit?_eq placed becomes
  have jump := length_append_code placed (test.length_code final base)
  have behind (target : Nat) := length_append_one jump ⟨.popJumpIf false target, line⟩
  obtain ⟨_, emits, becomes⟩ := emitsBody loop (behind 0) becomes
  have leave (target : Nat) := length_append_code (behind target)
    (body.length_upTo final loop 0 (base + test.size + 1))
  generalize wide : base + (test.size + 1 + body.size loop.keepsIteration + 1) = second
  have other : base + test.size + 1 + body.size loop.keepsIteration + 1 = second := by omega
  have behind' := length_append_one (leave second) ⟨.jump 0, elseLine⟩
  rw [other] at behind'
  obtain ⟨t', emits', becomes⟩ := emitsElse loop behind' becomes
  refine ⟨t', ?_, becomes⟩
  rw [Stmt.emit?, emitsTest, ok_bind, emit_ofTables, jump]
  dsimp only
  rw [emits, ok_bind]
  dsimp only
  rw [emit_ofTables, leave]
  dsimp only
  rw [patchHere?_ofTables _ _ _ second (List.append_assoc ..) jump
    (by rw [length_append_one (length_upTo ..), ← other]; omega) rfl, ok_bind, ← List.append_assoc,
    emits', ok_bind]
  dsimp only
  rw [patchHere?_ofTables _ _ _ (second + orelse.size loop.keepsIteration) rfl (leave second)
    (by rw [length_upTo, other]) rfl, ok_bind, Stmt.code, Stmt.breakPlaces]
  simp only [List.append_assoc]
  subst wide
  rfl

theorem Stmt.Emits.whileLoop (emitsBody : body.Emits final) (line : Nat) (test : Expr) :
    (Stmt.whileLoop line test body).Emits final := by
  intro t ls ids code base loop placed becomes
  obtain ⟨_, emitsTest, becomes⟩ := test.emit?_eq placed becomes
  have leave := length_append_code placed (test.length_code final base)
  have behind (target : Nat) := length_append_one leave ⟨.popJumpIf false target, line⟩
  obtain ⟨t', emits, becomes⟩ := emitsBody ⟨base, false⟩ (behind 0) becomes
  refine ⟨t', ?_, becomes⟩
  rw [Stmt.emit?, emitsTest, ok_bind, emit_ofTables, leave]
  dsimp only
  rw [length_ofTables, placed, emits, ok_bind]
  dsimp only
  rw [body.endLoop?_eq final ⟨base, false⟩ (.popJumpIf false)
    (fun _ => (List.append_nil _).symm) leave behind rfl rfl, ok_bind, Stmt.code]
  have stop : base + test.size + 1 + (body.size false + 1) =
      base + (test.size + 1 + body.size false + 1) := by omega
  simp only [stop, List.append_assoc]
  rfl

theorem Stmt.Emits.forLoop (emitsBody : body.Emits final) (line : Nat) (id : String)
    (iterable : Expr) : (Stmt.forLoop line id iterable body).Emits final := by
  intro t ls ids code base loop placed becomes
  obtain ⟨_, emitsItems, becomes⟩ := iterable.emit?_eq placed becomes
  have leave := length_append_one
    (length_append_code placed (iterable.length_code final base)) ⟨.getIter, line⟩
  have behind (target : Nat) := length_append_one
    (length_append_one leave ⟨.forIter target, line⟩) ⟨.storeName (final.names.idxOf id), line⟩
  obtain ⟨t', emits, becomes'⟩ :=
    emitsBody ⟨base + iterable.size + 1, true⟩ (t := Tables.adding _ [] [id]) (behind 0) becomes
  refine ⟨t', ?_, becomes'⟩
  rw [Stmt.emit?, emitsItems, ok_bind, put_ofTables]
  dsimp only
  rw [emit_ofTables, length_ofTables, leave]
  dsimp only
  rw [addName_ofTables, idxOf_of_adding becomes]
  dsimp only
  rw [put_ofTables, emits, ok_bind]
  dsimp only
  rw [body.endLoop?_eq final ⟨base + iterable.size + 1, true⟩ .forIter (fun _ => rfl) leave
    behind rfl rfl, ok_bind, Stmt.code]
  have stop : base + iterable.size + 1 + 1 + 1 + (body.size true + 1) =
      base + (iterable.size + 3 + body.size true + 1) := by omega
  simp only [stop, List.append_assoc]
  rfl

end Emits

theorem Stmt.emit?_eq (final : Tables) (stmt : Stmt) : stmt.Emits final := by
  induction stmt with
  | skip =>
      intro t ls ids code base loop placed becomes
      exact ⟨t, by rw [Stmt.emit?, Stmt.code, List.append_nil]; rfl, becomes⟩
  | seq first second ihFirst ihSecond => exact ihFirst.seq ihSecond
  | evaluate line e =>
      intro t ls ids code base loop placed becomes
      obtain ⟨t', emits, becomes⟩ := e.emit?_eq placed becomes
      refine ⟨t', ?_, becomes⟩
      rw [Stmt.emit?, emits, ok_bind, put_ofTables, Stmt.code, List.append_assoc]
      rfl
  | assign line id e =>
      intro t ls ids code base loop placed becomes
      obtain ⟨t', emits, becomes'⟩ := e.emit?_eq (t := t.adding [] [id]) placed becomes
      refine ⟨t', ?_, becomes'⟩
      rw [Stmt.emit?, addName_ofTables]
      dsimp only
      rw [emits, ok_bind, put_ofTables, idxOf_of_adding becomes, Stmt.code, List.append_assoc]
      rfl
  | augment line id op opLine e => exact emits_augment line id op opLine e
  | breakLoop line => exact emits_breakLoop line
  | continueLoop line =>
      intro t ls ids code base loop placed becomes
      exact ⟨t, by rw [Stmt.emit?, put_ofTables]; rfl, becomes⟩
  | ifThen line test body ih => exact ih.ifThen line test
  | ifElse line test body elseLine orelse ihBody ihElse =>
      exact ihBody.ifElse ihElse line test elseLine
  | whileLoop line test body ih => exact ih.whileLoop line test
  | forLoop line id iterable body ih => exact ih.forLoop line id iterable

end LessonScript
