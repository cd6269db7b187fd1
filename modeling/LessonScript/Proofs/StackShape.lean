import LessonScript.Proofs.Effects
import LessonScript.Proofs.References

/-!
The shape of the stack at every instruction of a script.

While compiled code runs, the stack holds the iterations of the loops around the
instruction, and above them the values of the expression that is being evaluated.  How many
there are of each depends on the instruction only.  `Expr.shapes` and `Stmt.shapes` assign a
shape to each instruction of a part, and `Program.ofScript_wellShaped` states that along
every edge of the code, jumps included, the shapes agree with what the instruction does.
-/

namespace LessonScript

/-- What the stack holds before an instruction: values above iterations, or, before the
last instruction of a script, nothing but the value with which it ends. -/
inductive Shape where
  | work (loops temps : Nat)
  | ending
  deriving DecidableEq

/-- The value is an iteration, which no name and no argument may ever be. -/
def Value.isIteration : Value → Bool
  | .iter _ => true
  | _ => false

inductive Shaped : List Value → Shape → Prop
  | empty : Shaped [] (.work 0 0)
  | iteration {vs k} (i : Iteration) :
      Shaped vs (.work k 0) → Shaped (.iter i :: vs) (.work (k + 1) 0)
  | temp {v vs k n} :
      v.isIteration = false → Shaped vs (.work k n) → Shaped (v :: vs) (.work k (n + 1))
  | ending : Shaped [.nothing] .ending

/-! ### Shapes of the parts of a script -/

mutual

/-- The shapes before the instructions of an expression that is evaluated above `n` values
inside `k` loops. -/
def Expr.shapes (k : Nat) : Nat → Expr → List Shape
  | n, .literal .. | n, .name .. => [.work k n]
  | n, .negate _ e | n, .complement _ e => e.shapes k n ++ [.work k (n + 1)]
  | n, .arith _ _ l r | n, .compare _ _ l r =>
    l.shapes k n ++ r.shapes k (n + 1) ++ [.work k (n + 2)]
  | n, .both _ l r | n, .either _ l r => l.shapes k n ++ .work k (n + 1) :: r.shapes k n
  | n, .call _ callee args =>
    callee.shapes k n ++ shapesOfAll k (n + 1) args ++ [.work k (n + 1 + args.length)]

def shapesOfAll (k : Nat) : Nat → List Expr → List Shape
  | _, [] => []
  | n, e :: es => e.shapes k n ++ shapesOfAll k (n + 1) es

end

/-- The shapes before the instructions of a statement inside `k` loops over iterables; the
flag tells whether the innermost loop is one of them. -/
def Stmt.shapes : (keepsIteration : Bool) → (k : Nat) → Stmt → List Shape
  | _, _, .skip => []
  | keeps, k, .seq first second => first.shapes keeps k ++ second.shapes keeps k
  | _, k, .evaluate _ e | _, k, .assign _ _ e => e.shapes k 0 ++ [.work k 1]
  | _, k, .augment _ _ _ _ e => .work k 0 :: (e.shapes k 1 ++ [.work k 2, .work k 1])
  | keeps, k, .breakLoop _ =>
    (if keeps then [.work k 0] else []) ++ [.work (if keeps then k - 1 else k) 0]
  | _, k, .continueLoop _ => [.work k 0]
  | keeps, k, .ifThen _ test body => test.shapes k 0 ++ .work k 1 :: body.shapes keeps k
  | keeps, k, .ifElse _ test body _ orelse =>
    test.shapes k 0 ++ .work k 1 :: (body.shapes keeps k ++ .work k 0 :: orelse.shapes keeps k)
  | _, k, .whileLoop _ test body =>
    test.shapes k 0 ++ .work k 1 :: (body.shapes false k ++ [.work k 0])
  | _, k, .forLoop _ _ iterable body =>
    iterable.shapes k 0 ++ .work k 1 :: .work (k + 1) 0 :: .work (k + 1) 1 ::
      (body.shapes true (k + 1) ++ [.work (k + 1) 0])

mutual

theorem Expr.length_shapes (k n : Nat) (e : Expr) : (e.shapes k n).length = e.size := by
  cases e with
  | literal | name => rfl
  | negate _ e | complement _ e => simp [Expr.shapes, Expr.size, e.length_shapes]
  | arith _ _ l r | compare _ _ l r =>
      simp [Expr.shapes, Expr.size, l.length_shapes, r.length_shapes]
      omega
  | both _ l r | either _ l r =>
      simp [Expr.shapes, Expr.size, l.length_shapes, r.length_shapes]
      omega
  | call _ callee args =>
      simp [Expr.shapes, Expr.size, callee.length_shapes, length_shapesOfAll k _ args]
      omega

theorem length_shapesOfAll (k n : Nat) (es : List Expr) :
    (shapesOfAll k n es).length = sizeOfAll es := by
  cases es with
  | nil => rfl
  | cons e es => simp [shapesOfAll, sizeOfAll, e.length_shapes, length_shapesOfAll k _ es]

end

theorem Stmt.length_shapes (keeps : Bool) (k : Nat) (s : Stmt) :
    (s.shapes keeps k).length = s.size keeps := by
  induction s generalizing keeps k with
  | skip => rfl
  | seq first second ihFirst ihSecond => simp [Stmt.shapes, Stmt.size, ihFirst, ihSecond]
  | evaluate | assign | augment => simp [Stmt.shapes, Stmt.size, Expr.length_shapes]
  | breakLoop => cases keeps <;> rfl
  | continueLoop => rfl
  | ifThen _ _ _ ih | whileLoop _ _ _ ih | forLoop _ _ _ _ ih =>
      simp [Stmt.shapes, Stmt.size, Expr.length_shapes, ih]
      omega
  | ifElse _ _ _ _ _ ihBody ihElse =>
      simp [Stmt.shapes, Stmt.size, Expr.length_shapes, ihBody, ihElse]
      omega

/-! ### The shape at the start of a part -/

section Start

variable {shapeAt : Nat → Option Shape} {base k n : Nat}

theorem Expr.shape_start (e : Expr) (lies : Lies shapeAt base (e.shapes k n)) :
    shapeAt base = some (.work k n) := by
  cases e with
  | literal | name => exact lies.head
  | negate _ e | complement _ e => exact e.shape_start lies.left
  | arith _ _ l r | compare _ _ l r => exact l.shape_start lies.left.left
  | both _ l r | either _ l r => exact l.shape_start lies.left
  | call _ callee args => exact callee.shape_start lies.left.left

theorem shape_start_of_all (es : List Expr) (lies : Lies shapeAt base (shapesOfAll k n es))
    (after : shapeAt (base + sizeOfAll es) = some (.work k (n + es.length))) :
    shapeAt base = some (.work k n) := by
  cases es with
  | nil => exact after
  | cons e es => exact e.shape_start lies.left

theorem Stmt.shape_start {keeps : Bool} (s : Stmt) (lies : Lies shapeAt base (s.shapes keeps k))
    (after : shapeAt (base + s.size keeps) = some (.work k 0)) :
    shapeAt base = some (.work k 0) := by
  induction s generalizing keeps base with
  | skip => exact after
  | seq first second ihFirst ihSecond =>
      have liesSecond := lies.right
      rw [Stmt.length_shapes] at liesSecond
      rw [Stmt.size, ← Nat.add_assoc] at after
      exact ihFirst lies.left (ihSecond liesSecond after)
  | evaluate _ e | assign _ _ e => exact e.shape_start lies.left
  | augment => exact lies.head
  | breakLoop =>
      cases keeps with
      | false => exact lies.head
      | true => exact lies.head
  | continueLoop => exact lies.head
  | ifThen _ test | ifElse _ test | whileLoop _ test => exact test.shape_start lies.left
  | forLoop _ _ iterable => exact iterable.shape_start lies.left

end Start

/-! ### Instructions that fit their shapes -/

/-- What the instruction needs is there, and what it leaves is what the instructions behind
it and at its target expect. -/
inductive Opcode.Fits (p : Program) (shapeAt : Nat → Option Shape) (here : Nat) : Opcode → Prop
  | loadConst {index v k n} (found : p.constants[index]? = some v)
      (plain : v.isIteration = false) (before : shapeAt here = some (.work k n))
      (after : shapeAt (here + 1) = some (.work k (n + 1))) : Fits p shapeAt here (.loadConst index)
  | loadEnding {index} (found : p.constants[index]? = some .nothing)
      (before : shapeAt here = some (.work 0 0))
      (after : shapeAt (here + 1) = some .ending) : Fits p shapeAt here (.loadConst index)
  | loadName {index id k n} (found : p.names[index]? = some id)
      (before : shapeAt here = some (.work k n))
      (after : shapeAt (here + 1) = some (.work k (n + 1))) : Fits p shapeAt here (.loadName index)
  | storeName {index id k n} (found : p.names[index]? = some id)
      (before : shapeAt here = some (.work k (n + 1)))
      (after : shapeAt (here + 1) = some (.work k n)) : Fits p shapeAt here (.storeName index)
  | arith {op k n} (before : shapeAt here = some (.work k (n + 2)))
      (after : shapeAt (here + 1) = some (.work k (n + 1))) : Fits p shapeAt here (.arith op)
  | compare {op k n} (before : shapeAt here = some (.work k (n + 2)))
      (after : shapeAt (here + 1) = some (.work k (n + 1))) : Fits p shapeAt here (.compare op)
  | negate {k n} (before : shapeAt here = some (.work k (n + 1)))
      (after : shapeAt (here + 1) = some (.work k (n + 1))) : Fits p shapeAt here .negate
  | complement {k n} (before : shapeAt here = some (.work k (n + 1)))
      (after : shapeAt (here + 1) = some (.work k (n + 1))) : Fits p shapeAt here .complement
  | call {count k n} (before : shapeAt here = some (.work k (n + 1 + count)))
      (after : shapeAt (here + 1) = some (.work k (n + 1))) : Fits p shapeAt here (.call count)
  | popTemp {k n} (before : shapeAt here = some (.work k (n + 1)))
      (after : shapeAt (here + 1) = some (.work k n)) : Fits p shapeAt here .popTop
  | popIteration {k} (before : shapeAt here = some (.work (k + 1) 0))
      (after : shapeAt (here + 1) = some (.work k 0)) : Fits p shapeAt here .popTop
  | returnValue (before : shapeAt here = some .ending) : Fits p shapeAt here .returnValue
  | jump {target k n} (before : shapeAt here = some (.work k n))
      (there : shapeAt target = some (.work k n)) : Fits p shapeAt here (.jump target)
  | popJumpIf {truth target k n} (before : shapeAt here = some (.work k (n + 1)))
      (after : shapeAt (here + 1) = some (.work k n))
      (there : shapeAt target = some (.work k n)) : Fits p shapeAt here (.popJumpIf truth target)
  | jumpIfOrPop {truth target k n} (before : shapeAt here = some (.work k (n + 1)))
      (after : shapeAt (here + 1) = some (.work k n))
      (there : shapeAt target = some (.work k (n + 1))) :
      Fits p shapeAt here (.jumpIfOrPop truth target)
  | getIter {k} (before : shapeAt here = some (.work k 1))
      (after : shapeAt (here + 1) = some (.work (k + 1) 0)) : Fits p shapeAt here .getIter
  | forIter {target k} (before : shapeAt here = some (.work (k + 1) 0))
      (after : shapeAt (here + 1) = some (.work (k + 1) 1))
      (there : shapeAt target = some (.work k 0)) : Fits p shapeAt here (.forIter target)

def FitsFrom (p : Program) (shapeAt : Nat → Option Shape) (base : Nat)
    (code : List Instruction) : Prop :=
  ∀ j (within : j < code.length), code[j].op.Fits p shapeAt (base + j)

theorem Literal.isIteration_value (l : Literal) : l.value.isIteration = false := by
  cases l <;> rfl

section Fit

variable {p : Program} {shapeAt : Nat → Option Shape} {base : Nat}

theorem FitsFrom.nil : FitsFrom p shapeAt base [] := by
  intro j within
  cases within

theorem FitsFrom.cons {instruction : Instruction} {code : List Instruction}
    (head : instruction.op.Fits p shapeAt base) (tail : FitsFrom p shapeAt (base + 1) code) :
    FitsFrom p shapeAt base (instruction :: code) := by
  intro j within
  cases j with
  | zero => exact head
  | succ j =>
      have fits := tail j (by simpa using within)
      rwa [Nat.add_assoc, Nat.add_comm 1] at fits

theorem FitsFrom.append {front back : List Instruction} {size : Nat}
    (left : FitsFrom p shapeAt base front) (length : front.length = size)
    (right : FitsFrom p shapeAt (base + size) back) : FitsFrom p shapeAt base (front ++ back) := by
  subst size
  induction front generalizing base with
  | nil => exact right
  | cons instruction front ih =>
      apply FitsFrom.cons (left 0 (Nat.succ_pos _))
      apply ih
      · intro j within
        have fits := left (j + 1) (by simpa using within)
        rwa [← Nat.add_assoc, Nat.add_right_comm] at fits
      · rwa [List.length_cons, ← Nat.add_assoc, Nat.add_right_comm] at right

theorem FitsFrom.single {instruction : Instruction} (fits : instruction.op.Fits p shapeAt base) :
    FitsFrom p shapeAt base [instruction] :=
  .cons fits .nil

end Fit

/-! ### The code of a part fits the shapes of the part -/

section Parts

variable {p : Program} {t : Tables} {shapeAt : Nat → Option Shape}

mutual

theorem Expr.fits (uses : p.Uses t) (e : Expr) {base k n : Nat} (known : e.KnownTo t)
    (lies : Lies shapeAt base (e.shapes k n))
    (after : shapeAt (base + e.size) = some (.work k (n + 1))) :
    FitsFrom p shapeAt base (e.code t base) := by
  cases e with
  | literal line value =>
      exact .single (.loadConst (uses.constant known) value.isIteration_value lies.head after)
  | name line id => exact .single (.loadName (uses.name known) lies.head after)
  | negate _ e | complement _ e =>
      have atOp := (lies.behind (e.length_shapes k n)).head
      have fits := e.fits uses known lies.left atOp
      refine .append fits (e.length_code t base) (.single ?_)
      constructor
      · exact atOp
      · exact after
  | arith _ _ l r | compare _ _ l r =>
      have liesRight := lies.left.behind (l.length_shapes k n)
      have atOp : shapeAt (base + (l.size + r.size)) = some (.work k (n + 2)) :=
        (lies.behind (by simp [Expr.length_shapes])).head
      have fitsLeft := l.fits uses known.1 lies.left.left (r.shape_start liesRight)
      have fitsRight := r.fits uses known.2 liesRight (by rwa [Nat.add_assoc])
      refine .append (.append fitsLeft (l.length_code t base) fitsRight)
        (length_operands t base l r) (.single ?_)
      constructor
      · exact atOp
      · exact after
  | both _ l r | either _ l r =>
      -- The jump keeps its value and goes behind the right operand, where one value is expected.
      have behindLeft := lies.behind (l.length_shapes k n)
      have fitsLeft := l.fits uses known.1 lies.left behindLeft.head
      have fitsRight := r.fits uses known.2 behindLeft.tail
        (by rwa [show base + l.size + 1 + r.size = base + (l.size + r.size + 1) by omega])
      exact .append fitsLeft (l.length_code t base)
        (.cons (.jumpIfOrPop behindLeft.head (r.shape_start behindLeft.tail) after) fitsRight)
  | call _ callee args =>
      have liesArgs := lies.left.behind (callee.length_shapes k n)
      have atCall : shapeAt (base + (callee.size + sizeOfAll args)) =
          some (.work k (n + 1 + args.length)) :=
        (lies.behind (by simp [Expr.length_shapes, length_shapesOfAll])).head
      have afterArgs := atCall
      rw [← Nat.add_assoc] at afterArgs
      have fitsCallee := callee.fits uses known.1 lies.left.left
        (shape_start_of_all args liesArgs afterArgs)
      have fitsArgs := fits_of_all uses args known.2 liesArgs afterArgs
      exact .append (.append fitsCallee (callee.length_code t base) fitsArgs)
        (by simp [Expr.length_code, length_codeOfAll]) (.single (.call atCall after))

theorem fits_of_all (uses : p.Uses t) (es : List Expr) {base k n : Nat} (known : AllKnownTo t es)
    (lies : Lies shapeAt base (shapesOfAll k n es))
    (after : shapeAt (base + sizeOfAll es) = some (.work k (n + es.length))) :
    FitsFrom p shapeAt base (codeOfAll t base es) := by
  cases es with
  | nil => exact .nil
  | cons e es =>
      have liesRest := lies.behind (e.length_shapes k n)
      have afterRest : shapeAt (base + e.size + sizeOfAll es) =
          some (.work k (n + 1 + es.length)) := by
        rw [Nat.add_assoc, Nat.add_right_comm n]
        exact after
      have fits := e.fits uses known.1 lies.left (shape_start_of_all es liesRest afterRest)
      exact .append fits (e.length_code t base) (fits_of_all uses es known.2 liesRest afterRest)

end

/-- The places to which `continue` and `break` go expect the stack that a statement inside the
loop leaves there. -/
structure LoopFrame.Fits (loop : LoopFrame) (shapeAt : Nat → Option Shape) (k : Nat) : Prop where
  start : shapeAt loop.start = some (.work k 0)
  stop : shapeAt loop.stop = some (.work (if loop.keepsIteration then k - 1 else k) 0)
  inside : loop.keepsIteration = true → 0 < k

theorem Stmt.fits (uses : p.Uses t) (s : Stmt) {loop : LoopFrame} {base k : Nat}
    (known : s.KnownTo t) (frame : loop.Fits shapeAt k)
    (lies : Lies shapeAt base (s.shapes loop.keepsIteration k))
    (after : shapeAt (base + s.size loop.keepsIteration) = some (.work k 0)) :
    FitsFrom p shapeAt base (s.code t loop base) := by
  induction s generalizing loop base k with
  | skip => exact .nil
  | seq first second ihFirst ihSecond =>
      have liesSecond := lies.behind (first.length_shapes loop.keepsIteration k)
      rw [Stmt.size, ← Nat.add_assoc] at after
      have fitsFirst := ihFirst known.1 frame lies.left (second.shape_start liesSecond after)
      exact .append fitsFirst (first.length_code t loop base)
        (ihSecond known.2 frame liesSecond after)
  | evaluate line e =>
      have atOp := (lies.behind (e.length_shapes k 0)).head
      exact .append (e.fits uses known lies.left atOp) (e.length_code t base)
        (.single (.popTemp atOp after))
  | assign line id e =>
      have atOp := (lies.behind (e.length_shapes k 0)).head
      exact .append (e.fits uses known.2 lies.left atOp) (e.length_code t base)
        (.single (.storeName (uses.name known.1) atOp after))
  | augment line id op opLine e =>
      have behind := lies.tail.behind (e.length_shapes k 1)
      have fits := e.fits uses known.2 lies.tail.left behind.head
      have atStore := behind.tail.head
      refine .cons (.loadName (uses.name known.1) lies.head (e.shape_start lies.tail.left))
        (.append fits (e.length_code t _) (.cons (.arith behind.head atStore)
          (.single (.storeName (uses.name known.1) atStore ?_))))
      rwa [show base + 1 + e.size + 1 + 1 = base + (e.size + 3) by omega]
  | breakLoop line =>
      have stop := frame.stop
      rcases loop with ⟨start, target, keeps⟩
      cases keeps with
      | false => exact .single (.jump lies.head stop)
      | true =>
          -- A break out of a loop over an iterable drops the iteration before it jumps.
          obtain ⟨k, rfl⟩ : ∃ outer, k = outer + 1 := Nat.exists_eq_succ_of_ne_zero
            (Nat.pos_iff_ne_zero.mp (frame.inside rfl))
          have atJump := lies.tail.head
          exact .cons (.popIteration lies.head atJump) (.single (.jump atJump stop))
  | continueLoop line => exact .single (.jump lies.head frame.start)
  | ifThen line test body ih =>
      have behind := lies.behind (test.length_shapes k 0)
      have afterBody : shapeAt (base + test.size + 1 + body.size loop.keepsIteration) =
          some (.work k 0) := by
        rwa [show base + test.size + 1 + body.size loop.keepsIteration =
          base + (test.size + 1 + body.size loop.keepsIteration) by omega]
      have fitsTest := test.fits uses known.1 lies.left behind.head
      have fitsBody := ih known.2 frame behind.tail afterBody
      exact .append fitsTest (test.length_code t base)
        (.cons (.popJumpIf behind.head (body.shape_start behind.tail afterBody) after) fitsBody)
  | ifElse line test body elseLine orelse ihBody ihElse =>
      have behind := lies.behind (test.length_shapes k 0)
      have behindBody := behind.tail.behind (body.length_shapes loop.keepsIteration k)
      have liesElse : Lies shapeAt (base + (test.size + 1 + body.size loop.keepsIteration + 1))
          (orelse.shapes loop.keepsIteration k) := by
        rw [show base + (test.size + 1 + body.size loop.keepsIteration + 1) =
          base + test.size + 1 + body.size loop.keepsIteration + 1 by omega]
        exact behindBody.tail
      rw [Stmt.size, ← Nat.add_assoc] at after
      have startBody := body.shape_start behind.tail.left behindBody.head
      have startElse := orelse.shape_start liesElse after
      have fitsTest := test.fits uses known.1 lies.left behind.head
      have fitsBody := ihBody known.2.1 frame behind.tail.left behindBody.head
      have fitsElse := ihElse known.2.2 frame liesElse after
      refine .append fitsTest (test.length_code t base)
        (.cons (.popJumpIf behind.head startBody startElse)
          (.append fitsBody (body.length_code t loop _) (.cons (.jump behindBody.head after) ?_)))
      rwa [show base + test.size + 1 + body.size loop.keepsIteration + 1 =
        base + (test.size + 1 + body.size loop.keepsIteration + 1) by omega]
  | whileLoop line test body ih =>
      have behind := lies.behind (test.length_shapes k 0)
      have atJump := (behind.tail.behind (body.length_shapes false k)).head
      have start := test.shape_start lies.left
      have startBody := body.shape_start behind.tail.left atJump
      have inner : LoopFrame.Fits ⟨base, base + (test.size + 1 + body.size false + 1), false⟩
          shapeAt k := ⟨start, after, by simp⟩
      have fitsTest := test.fits uses known.1 lies.left behind.head
      have fitsBody := ih known.2 inner behind.tail.left atJump
      exact .append fitsTest (test.length_code t base)
        (.cons (.popJumpIf behind.head startBody after)
          (.append fitsBody (body.length_code t ⟨base, _, false⟩ _) (.single (.jump atJump start))))
  | forLoop line id iterable body ih =>
      have behind := lies.behind (iterable.length_shapes k 0)
      have atNext := behind.tail.head
      have atStore := behind.tail.tail.head
      have liesBody := behind.tail.tail.tail.left
      have atJump := (behind.tail.tail.tail.behind (body.length_shapes true (k + 1))).head
      have startBody := body.shape_start liesBody atJump
      have inner : LoopFrame.Fits ⟨base + iterable.size + 1,
          base + (iterable.size + 3 + body.size true + 1), true⟩ shapeAt (k + 1) :=
        ⟨atNext, after, fun _ => Nat.succ_pos k⟩
      have fitsIterable := iterable.fits uses known.2.1 lies.left behind.head
      have fitsBody := ih known.2.2 inner liesBody atJump
      exact .append fitsIterable (iterable.length_code t base)
        (.cons (.getIter behind.head atNext) (.cons (.forIter atNext atStore after)
          (.cons (.storeName (uses.name known.1) atStore startBody)
            (.append fitsBody (body.length_code t ⟨_, _, true⟩ _)
              (.single (.jump atJump atNext))))))

end Parts

/-! ### Where statements begin -/

/-- The instructions at which the statements of a block begin, the block standing at `base`
inside so many loops over iterables, each with the number of such loops around it. -/
def Stmt.openings : (keepsIteration : Bool) → (loops base : Nat) → Stmt → List (Nat × Nat)
  | keeps, loops, base, .seq first second =>
    first.openings keeps loops base ++ second.openings keeps loops (base + first.size keeps)
  | keeps, loops, base, .ifThen _ test body =>
    (base, loops) :: body.openings keeps loops (base + test.size + 1)
  | keeps, loops, base, .ifElse _ test body _ orelse =>
    (base, loops) :: (body.openings keeps loops (base + test.size + 1) ++
      orelse.openings keeps loops (base + test.size + 1 + body.size keeps + 1))
  | _, loops, base, .whileLoop _ test body =>
    (base, loops) :: body.openings false loops (base + test.size + 1)
  | _, loops, base, .forLoop _ _ iterable body =>
    (base, loops) :: body.openings true (loops + 1) (base + iterable.size + 1 + 1 + 1)
  | _, loops, base, _ => [(base, loops)]

theorem Stmt.shape_opening {shapeAt : Nat → Option Shape} {keeps : Bool} {k base : Nat} (s : Stmt)
    (lies : Lies shapeAt base (s.shapes keeps k))
    (after : shapeAt (base + s.size keeps) = some (.work k 0)) {here loops : Nat}
    (opening : (here, loops) ∈ s.openings keeps k base) :
    shapeAt here = some (.work loops 0) := by
  have start := s.shape_start lies after
  induction s generalizing keeps k base with
  | seq first second ihFirst ihSecond =>
      have liesSecond := lies.behind (first.length_shapes keeps k)
      rw [Stmt.size, ← Nat.add_assoc] at after
      have startSecond := second.shape_start liesSecond after
      rcases List.mem_append.mp opening with inFirst | inSecond
      · exact ihFirst lies.left startSecond inFirst start
      · exact ihSecond liesSecond after inSecond startSecond
  | ifThen _ test body ih =>
      have behind := lies.behind (test.length_shapes k 0)
      have afterBody : shapeAt (base + test.size + 1 + body.size keeps) = some (.work k 0) := by
        rwa [show base + test.size + 1 + body.size keeps =
          base + (test.size + 1 + body.size keeps) by omega]
      rcases List.mem_cons.mp opening with same | inBody
      · cases same
        exact start
      · exact ih behind.tail afterBody inBody (body.shape_start behind.tail afterBody)
  | ifElse _ test body _ orelse ihBody ihElse =>
      have behind := lies.behind (test.length_shapes k 0)
      have behindBody := behind.tail.behind (body.length_shapes keeps k)
      have afterElse : shapeAt (base + test.size + 1 + body.size keeps + 1 + orelse.size keeps) =
          some (.work k 0) := by
        rwa [show base + test.size + 1 + body.size keeps + 1 + orelse.size keeps =
          base + (test.size + 1 + body.size keeps + 1 + orelse.size keeps) by omega]
      rcases List.mem_cons.mp opening with same | inside
      · cases same
        exact start
      · rcases List.mem_append.mp inside with inBody | inElse
        · exact ihBody behind.tail.left behindBody.head inBody
            (body.shape_start behind.tail.left behindBody.head)
        · exact ihElse behindBody.tail afterElse inElse
            (orelse.shape_start behindBody.tail afterElse)
  | whileLoop _ test body ih =>
      have behind := lies.behind (test.length_shapes k 0)
      have atJump := (behind.tail.behind (body.length_shapes false k)).head
      rcases List.mem_cons.mp opening with same | inBody
      · cases same
        exact start
      · exact ih behind.tail.left atJump inBody (body.shape_start behind.tail.left atJump)
  | forLoop _ _ iterable body ih =>
      have liesBody := (lies.behind (iterable.length_shapes k 0)).tail.tail.tail
      have atJump := (liesBody.behind (body.length_shapes true (k + 1))).head
      rcases List.mem_cons.mp opening with same | inBody
      · cases same
        exact start
      · exact ih liesBody.left atJump inBody (body.shape_start liesBody.left atJump)
  | skip | evaluate | assign | augment | breakLoop | continueLoop =>
      cases List.mem_singleton.mp opening
      exact start

/-! ### Whole scripts -/

def Script.shapes (script : Script) : List Shape :=
  script.body.shapes false 0 ++ [.work 0 0, .ending]

structure Program.WellShaped (p : Program) (shapeAt : Nat → Option Shape) : Prop where
  start : shapeAt 0 = some (.work 0 0)
  inside : ∀ {i : Nat} {s : Shape}, shapeAt i = some s → i < p.length
  fits : ∀ {i : Nat} {instruction : Instruction},
    p.code[i]? = some instruction → instruction.op.Fits p shapeAt i

theorem Program.length_ofScript (script : Script) :
    (ofScript script).length = script.body.size false + 2 := by
  have length := congrArg List.length (code_ofScript script)
  simpa [Program.length, Stmt.length_code, LoopFrame.outermost] using length

theorem Script.shape_end (script : Script) :
    script.shapes[0 + script.body.size false]? = some (.work 0 0) := by
  have lies := lies_getElem? script.shapes
  exact (lies.behind (script.body.length_shapes false 0)).head

/-- Outside all loops there is no iteration, so the frame there expects the empty stack at
the start of the script. -/
theorem Script.outermost_fits (script : Script) :
    LoopFrame.outermost.Fits (fun i => script.shapes[i]?) 0 := by
  have lies := lies_getElem? script.shapes
  have start := script.body.shape_start lies.left script.shape_end
  exact ⟨start, start, by simp [LoopFrame.outermost]⟩

theorem Program.ofScript_wellShaped (script : Script) :
    (ofScript script).WellShaped fun i => script.shapes[i]? where
  start := script.body.shape_start (lies_getElem? script.shapes).left script.shape_end
  inside := by
    intro i s found
    have within := (List.getElem?_eq_some_iff.mp found).1
    rw [length_ofScript]
    simpa [Script.shapes, Stmt.length_shapes] using within
  fits := by
    intro i instruction found
    have uses := ofScript_uses script
    obtain ⟨known, knowsNothing⟩ := Tables.ofStmt_knows script.body
    have lies := lies_getElem? script.shapes
    have atEnd := lies.behind (script.body.length_shapes false 0)
    have fitsBody := script.body.fits uses known script.outermost_fits lies.left script.shape_end
    have fitsEnd : FitsFrom (ofScript script) (fun i => script.shapes[i]?)
        (0 + script.body.size false)
        [⟨(Tables.ofStmt script.body).load .nothing, script.lastLine⟩,
          ⟨.returnValue, script.lastLine⟩] := by
      apply FitsFrom.cons
      · exact .loadEnding (uses.constant knowsNothing) atEnd.head atEnd.tail.head
      · exact .single (.returnValue atEnd.tail.head)
    have fits := fitsBody.append (script.body.length_code _ .outermost 0) fitsEnd
    rw [← Array.getElem?_toList, code_ofScript] at found
    obtain ⟨within, rfl⟩ := List.getElem?_eq_some_iff.mp found
    have fit := fits i within
    rwa [Nat.zero_add] at fit

end LessonScript
