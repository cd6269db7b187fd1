import LessonScript.Program.Listing
import LessonScript.Program.OfScript
import Mathlib.Data.List.Forall2

/-!
Parts of scripts that have the same code.

Two parts of scripts are alike if they bring the tables to the same entries and have the same code,
wherever they stand, but for the lines of the instructions: those stand in a given relation, one by
one.  Likeness goes through every form of a tree, so a part can be put in the place of another one
that is like it.
-/

namespace LessonScript

/-- The same operation, on lines that stand in the relation. -/
structure Instruction.Alike (R : Nat → Nat → Prop) (i j : Instruction) : Prop where
  op : i.op = j.op
  lines : R i.line j.line

abbrev CodeAlike (R : Nat → Nat → Prop) (code other : List Instruction) : Prop :=
  List.Forall₂ (Instruction.Alike R) code other

def SamePool {α : Type} [BEq α] (xs ys : List α) : Prop :=
  ∀ pool, xs.foldl intern pool = ys.foldl intern pool

/-- What two parts put in front of a list brings a pool to the same entries. -/
def EntersAlike {α : Type} [BEq α] (before before' : List α → List α) : Prop :=
  ∀ rest rest', SamePool rest rest' → SamePool (before rest) (before' rest')

namespace EntersAlike

variable {α : Type} [BEq α] {before before' front front' : List α → List α}

theorem none : EntersAlike (id : List α → List α) id :=
  fun _ _ same => same

theorem one (x : α) : EntersAlike (x :: ·) (x :: ·) :=
  fun _ _ same pool => same (intern pool x)

theorem comp (first : EntersAlike front front') (second : EntersAlike before before') :
    EntersAlike (front ∘ before) (front' ∘ before') :=
  fun _ _ same => first _ _ (second _ _ same)

theorem trans (first : EntersAlike front before) (second : EntersAlike before before') :
    EntersAlike front before' :=
  fun rest rest' same pool =>
    (first rest rest' same pool).trans (second rest' rest' (fun _ => rfl) pool)

theorem twice [LawfulBEq α] (x : α) : EntersAlike (x :: ·) ((x :: ·) ∘ (x :: ·)) := by
  intro rest rest' same pool
  have known : (intern pool x).contains x = true := by
    rw [List.contains_iff_mem]
    unfold intern
    split
    · rename_i known
      exact List.contains_iff_mem.mp known
    · exact List.mem_append_right _ (List.mem_singleton.mpr rfl)
  change rest.foldl intern (intern pool x) = rest'.foldl intern (intern (intern pool x) x)
  rw [intern.eq_def (intern pool x), if_pos known]
  exact same _

theorem poolOf_eq (alike : EntersAlike before before') (last : List α) :
    poolOf (before last) = poolOf (before' last) :=
  alike last last (fun _ => rfl) []

end EntersAlike

section

variable (R : Nat → Nat → Prop)

structure Expr.Alike (e e' : Expr) : Prop where
  literals : EntersAlike e.literalsBefore e'.literalsBefore
  names : EntersAlike e.namesBefore e'.namesBefore
  code : ∀ t base, CodeAlike R (e.code t base) (e'.code t base)

structure AllAlike (es es' : List Expr) : Prop where
  length : es.length = es'.length
  literals : EntersAlike (literalsOfAllBefore es) (literalsOfAllBefore es')
  names : EntersAlike (namesOfAllBefore es) (namesOfAllBefore es')
  code : ∀ t base, CodeAlike R (codeOfAll t base es) (codeOfAll t base es')

end

variable {R : Nat → Nat → Prop} {line line' : Nat} {e e' l l' r r' callee callee' : Expr}
  {args args' : List Expr}

theorem Expr.Alike.size (alike : Expr.Alike R e e') : e.size = e'.size := by
  have lengths := (alike.code ⟨[], []⟩ 0).length_eq
  rwa [length_code, length_code] at lengths

theorem CodeAlike.one {op : Opcode} (lines : R line line') :
    CodeAlike R [⟨op, line⟩] [⟨op, line'⟩] :=
  .cons ⟨rfl, lines⟩ .nil

theorem CodeAlike.trans (trans : ∀ a b c, R a b → R b c → R a c)
    {code other third : List Instruction} (first : CodeAlike R code other)
    (second : CodeAlike R other third) : CodeAlike R code third := by
  induction first generalizing third with
  | nil => exact second
  | cons same _ ih =>
      cases second with
      | cons same' others =>
          exact .cons ⟨same.op.trans same'.op, trans _ _ _ same.lines same'.lines⟩ (ih others)

theorem CodeAlike.append {front front' back back' : List Instruction}
    (first : CodeAlike R front front') (second : CodeAlike R back back') :
    CodeAlike R (front ++ back) (front' ++ back') :=
  List.rel_append first second

namespace Expr.Alike

theorem literal (lines : R line line') (value : Literal) :
    Alike R (.literal line value) (.literal line' value) :=
  ⟨.one value, .none, fun _ _ => .one lines⟩

theorem name (lines : R line line') (id : String) : Alike R (.name line id) (.name line' id) :=
  ⟨.none, .one id, fun _ _ => .one lines⟩

theorem negate (lines : R line line') (operand : Alike R e e') :
    Alike R (.negate line e) (.negate line' e') :=
  ⟨operand.literals, operand.names, fun t base => (operand.code t base).append (.one lines)⟩

theorem complement (lines : R line line') (operand : Alike R e e') :
    Alike R (.complement line e) (.complement line' e') :=
  ⟨operand.literals, operand.names, fun t base => (operand.code t base).append (.one lines)⟩

theorem arith (lines : R line line') (op : ArithOp) (left : Alike R l l') (right : Alike R r r') :
    Alike R (.arith line op l r) (.arith line' op l' r') := by
  refine ⟨left.literals.comp right.literals, left.names.comp right.names, fun t base => ?_⟩
  rw [Expr.code, Expr.code, left.size]
  exact ((left.code t base).append (right.code t _)).append (.one lines)

theorem compare (lines : R line line') (op : CompareOp) (left : Alike R l l')
    (right : Alike R r r') : Alike R (.compare line op l r) (.compare line' op l' r') := by
  refine ⟨left.literals.comp right.literals, left.names.comp right.names, fun t base => ?_⟩
  rw [Expr.code, Expr.code, left.size]
  exact ((left.code t base).append (right.code t _)).append (.one lines)

theorem both (lines : R line line') (left : Alike R l l') (right : Alike R r r') :
    Alike R (.both line l r) (.both line' l' r') := by
  refine ⟨left.literals.comp right.literals, left.names.comp right.names, fun t base => ?_⟩
  rw [Expr.code, Expr.code, left.size, right.size]
  exact (left.code t base).append (.cons ⟨rfl, lines⟩ (right.code t _))

theorem either (lines : R line line') (left : Alike R l l') (right : Alike R r r') :
    Alike R (.either line l r) (.either line' l' r') := by
  refine ⟨left.literals.comp right.literals, left.names.comp right.names, fun t base => ?_⟩
  rw [Expr.code, Expr.code, left.size, right.size]
  exact (left.code t base).append (.cons ⟨rfl, lines⟩ (right.code t _))

theorem call (lines : R line line') (callee : Alike R e e') (all : AllAlike R args args') :
    Alike R (.call line e args) (.call line' e' args') := by
  refine ⟨callee.literals.comp all.literals, callee.names.comp all.names, fun t base => ?_⟩
  rw [Expr.code, Expr.code, callee.size, all.length]
  exact ((callee.code t base).append (all.code t _)).append (.one lines)

theorem trans (transR : ∀ a b c, R a b → R b c → R a c) (first : Alike R e e')
    (second : Alike R e' l) : Alike R e l :=
  ⟨first.literals.trans second.literals, first.names.trans second.names,
    fun t base => (first.code t base).trans transR (second.code t base)⟩

end Expr.Alike

namespace AllAlike

theorem nil : AllAlike R [] [] :=
  ⟨rfl, .none, .none, fun _ _ => .nil⟩

theorem cons (first : Expr.Alike R e e') (others : AllAlike R args args') :
    AllAlike R (e :: args) (e' :: args') := by
  refine ⟨congrArg Nat.succ others.length, first.literals.comp others.literals,
    first.names.comp others.names, fun t base => ?_⟩
  rw [codeOfAll, codeOfAll, first.size]
  exact (first.code t base).append (others.code t _)

end AllAlike

mutual

theorem Expr.Alike.refl (reflR : ∀ n, R n n) (e : Expr) : Expr.Alike R e e := by
  cases e with
  | literal _ value => exact .literal (reflR _) value
  | name _ id => exact .name (reflR _) id
  | negate _ e => exact .negate (reflR _) (.refl reflR e)
  | complement _ e => exact .complement (reflR _) (.refl reflR e)
  | arith _ op l r => exact .arith (reflR _) op (.refl reflR l) (.refl reflR r)
  | compare _ op l r => exact .compare (reflR _) op (.refl reflR l) (.refl reflR r)
  | both _ l r => exact .both (reflR _) (.refl reflR l) (.refl reflR r)
  | either _ l r => exact .either (reflR _) (.refl reflR l) (.refl reflR r)
  | call _ callee args => exact .call (reflR _) (.refl reflR callee) (.refl reflR args)

theorem AllAlike.refl (reflR : ∀ n, R n n) (es : List Expr) : AllAlike R es es := by
  cases es with
  | nil => exact .nil
  | cons e es => exact .cons (.refl reflR e) (.refl reflR es)

end

structure Stmt.Alike (R : Nat → Nat → Prop) (s s' : Stmt) : Prop where
  literals : EntersAlike s.literalsBefore s'.literalsBefore
  names : EntersAlike s.namesBefore s'.namesBefore
  code : ∀ t loop base, CodeAlike R (s.code t loop base) (s'.code t loop base)

theorem Stmt.Alike.size {s s' : Stmt} (alike : Stmt.Alike R s s') (keepsIteration : Bool) :
    s.size keepsIteration = s'.size keepsIteration := by
  have lengths := (alike.code ⟨[], []⟩ ⟨0, 0, keepsIteration⟩ 0).length_eq
  rwa [length_code, length_code] at lengths

namespace Stmt.Alike

variable {test test' : Expr} {first first' second second' body body' orelse orelse' : Stmt}

theorem skip : Alike R .skip .skip :=
  ⟨.none, .none, fun _ _ _ => .nil⟩

theorem seq (front : Alike R first first') (back : Alike R second second') :
    Alike R (.seq first second) (.seq first' second') := by
  refine ⟨front.literals.comp back.literals, front.names.comp back.names, fun t loop base => ?_⟩
  rw [Stmt.code, Stmt.code, front.size]
  exact (front.code t loop base).append (back.code t loop _)

theorem evaluate (lines : R line line') (value : Expr.Alike R e e') :
    Alike R (.evaluate line e) (.evaluate line' e') :=
  ⟨value.literals, value.names, fun t _ base => (value.code t base).append (.one lines)⟩

theorem assign (lines : R line line') (id : String) (value : Expr.Alike R e e') :
    Alike R (.assign line id e) (.assign line' id e') :=
  ⟨value.literals, (EntersAlike.one id).comp value.names,
    fun t _ base => (value.code t base).append (.one lines)⟩

theorem augment {opLine opLine' : Nat} (lines : R line line') (id : String) (op : ArithOp)
    (opLines : R opLine opLine') (value : Expr.Alike R e e') :
    Alike R (.augment line id op opLine e) (.augment line' id op opLine' e') := by
  refine ⟨value.literals, (EntersAlike.one id).comp value.names, fun t _ base => ?_⟩
  exact .cons ⟨rfl, lines⟩
    ((value.code t _).append (.cons ⟨rfl, opLines⟩ (CodeAlike.one lines)))

theorem breakLoop (lines : R line line') : Alike R (.breakLoop line) (.breakLoop line') := by
  refine ⟨.none, .none, fun t loop base => ?_⟩
  rw [Stmt.code, Stmt.code]
  split
  · exact CodeAlike.append (.one lines) (.one lines)
  · exact .one lines

theorem continueLoop (lines : R line line') :
    Alike R (.continueLoop line) (.continueLoop line') :=
  ⟨.none, .none, fun _ _ _ => .one lines⟩

theorem ifThen (lines : R line line') (tests : Expr.Alike R test test')
    (bodies : Alike R body body') :
    Alike R (.ifThen line test body) (.ifThen line' test' body') := by
  refine ⟨tests.literals.comp bodies.literals, tests.names.comp bodies.names,
    fun t loop base => ?_⟩
  rw [Stmt.code, Stmt.code, tests.size, bodies.size]
  exact (tests.code t base).append (.cons ⟨rfl, lines⟩ (bodies.code t loop _))

theorem ifElse {elseLine elseLine' : Nat} (lines : R line line') (tests : Expr.Alike R test test')
    (bodies : Alike R body body') (elseLines : R elseLine elseLine')
    (others : Alike R orelse orelse') :
    Alike R (.ifElse line test body elseLine orelse)
      (.ifElse line' test' body' elseLine' orelse') := by
  refine ⟨tests.literals.comp (bodies.literals.comp others.literals),
    tests.names.comp (bodies.names.comp others.names), fun t loop base => ?_⟩
  rw [Stmt.code, Stmt.code, tests.size, bodies.size, others.size]
  exact (tests.code t base).append (.cons ⟨rfl, lines⟩
    ((bodies.code t loop _).append (.cons ⟨rfl, elseLines⟩ (others.code t loop _))))

theorem whileLoop (lines : R line line') (tests : Expr.Alike R test test')
    (bodies : Alike R body body') :
    Alike R (.whileLoop line test body) (.whileLoop line' test' body') := by
  refine ⟨tests.literals.comp bodies.literals, tests.names.comp bodies.names,
    fun t loop base => ?_⟩
  rw [Stmt.code, Stmt.code, tests.size, bodies.size]
  exact (tests.code t base).append (.cons ⟨rfl, lines⟩
    ((bodies.code t _ _).append (.one lines)))

theorem forLoop (lines : R line line') (id : String) (iterables : Expr.Alike R e e')
    (bodies : Alike R body body') :
    Alike R (.forLoop line id e body) (.forLoop line' id e' body') := by
  refine ⟨iterables.literals.comp bodies.literals,
    iterables.names.comp ((EntersAlike.one id).comp bodies.names), fun t loop base => ?_⟩
  rw [Stmt.code, Stmt.code, iterables.size, bodies.size]
  exact (iterables.code t base).append (.cons ⟨rfl, lines⟩ (.cons ⟨rfl, lines⟩
    (.cons ⟨rfl, lines⟩ ((bodies.code t _ _).append (.one lines)))))

theorem refl (reflR : ∀ n, R n n) (s : Stmt) : Alike R s s := by
  induction s with
  | skip => exact .skip
  | seq _ _ ih ih' => exact .seq ih ih'
  | evaluate _ e => exact .evaluate (reflR _) (.refl reflR e)
  | assign _ id e => exact .assign (reflR _) id (.refl reflR e)
  | augment _ id op _ e => exact .augment (reflR _) id op (reflR _) (.refl reflR e)
  | breakLoop => exact .breakLoop (reflR _)
  | continueLoop => exact .continueLoop (reflR _)
  | ifThen _ test _ ih => exact .ifThen (reflR _) (.refl reflR test) ih
  | ifElse _ test _ _ _ ih ih' => exact .ifElse (reflR _) (.refl reflR test) ih (reflR _) ih'
  | whileLoop _ test _ ih => exact .whileLoop (reflR _) (.refl reflR test) ih
  | forLoop _ id iterable _ ih => exact .forLoop (reflR _) id (.refl reflR iterable) ih

theorem trans (transR : ∀ a b c, R a b → R b c → R a c) (one : Alike R first second)
    (other : Alike R second body) : Alike R first body :=
  ⟨one.literals.trans other.literals, one.names.trans other.names,
    fun t loop base => (one.code t loop base).trans transR (other.code t loop base)⟩

theorem seq_skip (same : Alike R body body') : Alike R body (.seq body' .skip) := by
  refine ⟨same.literals, same.names, fun t loop base => ?_⟩
  rw [Stmt.code, Stmt.code, List.append_nil]
  exact same.code t loop base

/-- An assignment that applies an operator first has the code of the assignment that is written
out. -/
theorem augment_assign {opLine opLine' nameLine : Nat} (lines : R line line') (id : String)
    (op : ArithOp) (opLines : R opLine opLine') (nameLines : R line nameLine)
    (value : Expr.Alike R e e') :
    Alike R (.augment line id op opLine e)
      (.assign line' id (.arith opLine' op (.name nameLine id) e')) := by
  refine ⟨value.literals, (EntersAlike.twice id).comp value.names, fun t _ base => ?_⟩
  rw [Stmt.code, Stmt.code, Expr.code, Expr.code, Expr.size, List.append_assoc, List.append_assoc]
  exact .cons ⟨rfl, nameLines⟩
    ((value.code t _).append (.cons ⟨rfl, opLines⟩ (CodeAlike.one lines)))

theorem tables (alike : Alike R body body') : Tables.ofStmt body = Tables.ofStmt body' := by
  rw [Tables.ofStmt, Tables.ofStmt, alike.literals.poolOf_eq, alike.names.poolOf_eq]

end Stmt.Alike

/-- The same program, but for the lines of its instructions. -/
structure Program.Alike (p q : Program) : Prop where
  ops : p.code.toList.map Instruction.op = q.code.toList.map Instruction.op
  constants : p.constants = q.constants
  names : p.names = q.names

theorem CodeAlike.ops {code other : List Instruction} (alike : CodeAlike R code other) :
    code.map Instruction.op = other.map Instruction.op := by
  induction alike with
  | nil => rfl
  | cons first _ ih => rw [List.map_cons, List.map_cons, first.op, ih]

theorem Program.Alike.listing_eq {p q : Program} (alike : Alike p q) : p.listing = q.listing := by
  have line (op : Opcode) : p.listingLine op = q.listingLine op := by
    unfold listingLine operandText?
    rw [alike.constants, alike.names]
  unfold listing
  rw [funext line, ← Function.comp_def q.listingLine, ← List.map_map, alike.ops, List.map_map]

theorem Program.ofScript_alike {script script' : Script}
    (alike : Stmt.Alike R script.body script'.body) :
    Alike (ofScript script) (ofScript script') := by
  refine ⟨?_, ?_, ?_⟩
  · rw [code_ofScript, code_ofScript, List.map_append, List.map_append, alike.tables,
      (alike.code _ _ _).ops]
    rfl
  · rw [ofScript, ofScript, alike.tables]
    rfl
  · rw [ofScript, ofScript, alike.tables]
    rfl

end LessonScript
