import LessonScript.Program.Tables

/-!
The code of the parts of a script.

Every part of the tree has its code, which depends on the place where it will stand only
through the targets of its jumps.  `Expr.length_code` and `Stmt.length_code` state that the
sizes from which those targets are computed are the lengths of the code.

The code of an expression leaves its value on the stack.  The code of a statement leaves
the stack as it was; a loop over an iterable keeps its iteration on the stack while its
body runs, and a `break` out of it drops the iteration.
-/

namespace LessonScript

mutual

def Expr.size : Expr → Nat
  | .literal .. | .name .. => 1
  | .negate _ e | .complement _ e => e.size + 1
  | .arith _ _ l r | .compare _ _ l r | .both _ l r | .either _ l r => l.size + r.size + 1
  | .call _ callee args => callee.size + sizeOfAll args + 1

def sizeOfAll : List Expr → Nat
  | [] => 0
  | e :: es => e.size + sizeOfAll es

end

mutual

def Expr.code (t : Tables) (base : Nat) : Expr → List Instruction
  | .literal line value => [⟨t.load value, line⟩]
  | .name line id => [⟨t.loadName id, line⟩]
  | .negate line e => e.code t base ++ [⟨.negate, line⟩]
  | .complement line e => e.code t base ++ [⟨.complement, line⟩]
  | .arith line op l r => l.code t base ++ r.code t (base + l.size) ++ [⟨.arith op, line⟩]
  | .compare line op l r => l.code t base ++ r.code t (base + l.size) ++ [⟨.compare op, line⟩]
  | .both line l r =>
    l.code t base ++ ⟨.jumpIfOrPop false (base + (l.size + r.size + 1)), line⟩ ::
      r.code t (base + l.size + 1)
  | .either line l r =>
    l.code t base ++ ⟨.jumpIfOrPop true (base + (l.size + r.size + 1)), line⟩ ::
      r.code t (base + l.size + 1)
  | .call line callee args =>
    callee.code t base ++ codeOfAll t (base + callee.size) args ++ [⟨.call args.length, line⟩]

def codeOfAll (t : Tables) (base : Nat) : List Expr → List Instruction
  | [] => []
  | e :: es => e.code t base ++ codeOfAll t (base + e.size) es

end

mutual

theorem Expr.length_code (t : Tables) (base : Nat) (e : Expr) :
    (e.code t base).length = e.size := by
  cases e with
  | literal | name => rfl
  | negate _ e | complement _ e => simp [Expr.code, Expr.size, e.length_code]
  | arith _ _ l r | compare _ _ l r =>
    simp [Expr.code, Expr.size, l.length_code, r.length_code]
    omega
  | both _ l r | either _ l r =>
    simp [Expr.code, Expr.size, l.length_code, r.length_code]
    omega
  | call _ callee args =>
    simp [Expr.code, Expr.size, callee.length_code, length_codeOfAll t _ args]
    omega

theorem length_codeOfAll (t : Tables) (base : Nat) (es : List Expr) :
    (codeOfAll t base es).length = sizeOfAll es := by
  cases es with
  | nil => rfl
  | cons e es => simp [codeOfAll, sizeOfAll, e.length_code, length_codeOfAll t _ es]

end

/-- Where `continue` and `break` go inside a loop, and whether the loop keeps an iteration
on the stack. -/
structure LoopFrame where
  start : Nat
  stop : Nat
  keepsIteration : Bool

def LoopFrame.outermost : LoopFrame :=
  ⟨0, 0, false⟩

/-- The number of instructions of a statement.  Only a `break` depends on the kind of loop
around it. -/
def Stmt.size (keepsIteration : Bool) : Stmt → Nat
  | .skip => 0
  | .seq first second => first.size keepsIteration + second.size keepsIteration
  | .evaluate _ e | .assign _ _ e => e.size + 1
  | .augment _ _ _ _ e => e.size + 3
  | .breakLoop _ => if keepsIteration then 2 else 1
  | .continueLoop _ => 1
  | .ifThen _ test body => test.size + 1 + body.size keepsIteration
  | .ifElse _ test body _ orelse =>
    test.size + 1 + body.size keepsIteration + 1 + orelse.size keepsIteration
  | .whileLoop _ test body => test.size + 1 + body.size false + 1
  | .forLoop _ _ iterable body => iterable.size + 3 + body.size true + 1

def Stmt.code (t : Tables) : LoopFrame → Nat → Stmt → List Instruction
  | _, _, .skip => []
  | loop, base, .seq first second =>
    first.code t loop base ++ second.code t loop (base + first.size loop.keepsIteration)
  | _, base, .evaluate line e => e.code t base ++ [⟨.popTop, line⟩]
  | _, base, .assign line id e => e.code t base ++ [⟨t.storeName id, line⟩]
  | _, base, .augment line id op opLine e =>
    ⟨t.loadName id, line⟩ ::
      (e.code t (base + 1) ++ [⟨.arith op, opLine⟩, ⟨t.storeName id, line⟩])
  | loop, _, .breakLoop line =>
    (if loop.keepsIteration then [⟨.popTop, line⟩] else []) ++ [⟨.jump loop.stop, line⟩]
  | loop, _, .continueLoop line => [⟨.jump loop.start, line⟩]
  | loop, base, .ifThen line test body =>
    let stop := base + (test.size + 1 + body.size loop.keepsIteration)
    test.code t base ++ ⟨.popJumpIf false stop, line⟩ ::
      body.code t loop (base + test.size + 1)
  | loop, base, .ifElse line test body elseLine orelse =>
    let second := base + (test.size + 1 + body.size loop.keepsIteration + 1)
    let stop := second + orelse.size loop.keepsIteration
    test.code t base ++ ⟨.popJumpIf false second, line⟩ ::
      (body.code t loop (base + test.size + 1) ++ ⟨.jump stop, elseLine⟩ ::
        orelse.code t loop second)
  | _, base, .whileLoop line test body =>
    let stop := base + (test.size + 1 + body.size false + 1)
    test.code t base ++ ⟨.popJumpIf false stop, line⟩ ::
      (body.code t ⟨base, stop, false⟩ (base + test.size + 1) ++ [⟨.jump base, line⟩])
  | _, base, .forLoop line id iterable body =>
    let start := base + iterable.size + 1
    let stop := base + (iterable.size + 3 + body.size true + 1)
    iterable.code t base ++ ⟨.getIter, line⟩ :: ⟨.forIter stop, line⟩ ::
      ⟨t.storeName id, line⟩ :: (body.code t ⟨start, stop, true⟩ (start + 2) ++
        [⟨.jump start, line⟩])

theorem Stmt.length_code (t : Tables) (loop : LoopFrame) (base : Nat) (stmt : Stmt) :
    (stmt.code t loop base).length = stmt.size loop.keepsIteration := by
  induction stmt generalizing loop base with
  | skip => rfl
  | seq first second ihFirst ihSecond => simp [Stmt.code, Stmt.size, ihFirst, ihSecond]
  | evaluate | assign | augment => simp [Stmt.code, Stmt.size, Expr.length_code]
  | breakLoop line =>
    cases hKeeps : loop.keepsIteration <;> simp [Stmt.code, Stmt.size, hKeeps]
  | continueLoop => rfl
  | ifThen _ _ _ ih =>
    simp [Stmt.code, Stmt.size, Expr.length_code, ih]
    omega
  | ifElse _ _ _ _ _ ihBody ihElse =>
    simp [Stmt.code, Stmt.size, Expr.length_code, ihBody, ihElse]
    omega
  | whileLoop _ _ _ ih =>
    simp [Stmt.code, Stmt.size, Expr.length_code, ih]
    omega
  | forLoop _ _ _ _ ih =>
    simp [Stmt.code, Stmt.size, Expr.length_code, ih]
    omega

end LessonScript
