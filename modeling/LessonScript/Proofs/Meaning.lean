import LessonScript.Machine.Action
import LessonScript.Script.Tree

/-!
What scripts mean, without a machine.

`Expr.eval` evaluates an expression by recursion on its tree.  It leaves the bindings alone
and changes the world only through calls; what is not evaluated has no effect.  `Stmt.exec`
executes a statement.  A statement may run forever, so loops are given a number of rounds;
`Stmt.exec_mono` states that more rounds never change an outcome, hence a statement has at
most one (`Stmt.exec_unique`).
-/

namespace LessonScript

variable {σ : Type}

/-- Goes on with the result of a computation, unless the computation failed. -/
def andThen {α β : Type} (outcome : Except Fault α × σ) (next : α → σ → Except Fault β × σ) :
    Except Fault β × σ :=
  match outcome with
  | (.ok a, world) => next a world
  | (.error fault, world) => (.error fault, world)

/-- Applies a value to arguments; only builtins can be called. -/
def Value.applyTo (callee : Value) (host : Host σ) (args : List Value) (world : σ) :
    Except Fault Value × σ :=
  match callee with
  | .builtin f => f.call host world args
  | v => (.error (.call (.notCallable v.kind)), world)

mutual

/-- The value of an expression, or the fault that its evaluation meets first. -/
def Expr.eval (builtins : BuiltinSet) (host : Host σ) (locals : Locals) :
    Expr → σ → Except Fault Value × σ
  | .literal _ l, world => (.ok l.value, world)
  | .name _ id, world => (locals.load? builtins id, world)
  | .negate _ e, world =>
    andThen (e.eval builtins host locals world) fun v world => (v.negate, world)
  | .complement _ e, world =>
    andThen (e.eval builtins host locals world) fun v world => (.ok (.bool (!v.isTruthy)), world)
  | .arith _ op l r, world =>
    andThen (l.eval builtins host locals world) fun x world =>
      andThen (r.eval builtins host locals world) fun y world => (x.arith op y, world)
  | .compare _ op l r, world =>
    andThen (l.eval builtins host locals world) fun x world =>
      andThen (r.eval builtins host locals world) fun y world => (x.comparison op y, world)
  | .both _ l r, world =>
    andThen (l.eval builtins host locals world) fun x world =>
      if x.isTruthy then r.eval builtins host locals world else (.ok x, world)
  | .either _ l r, world =>
    andThen (l.eval builtins host locals world) fun x world =>
      if x.isTruthy then (.ok x, world) else r.eval builtins host locals world
  | .call _ callee args, world =>
    andThen (callee.eval builtins host locals world) fun f world =>
      andThen (evalAll builtins host locals args world) fun vs world => f.applyTo host vs world

def evalAll (builtins : BuiltinSet) (host : Host σ) (locals : Locals) :
    List Expr → σ → Except Fault (List Value) × σ
  | [], world => (.ok [], world)
  | e :: es, world =>
    andThen (e.eval builtins host locals world) fun v world =>
      andThen (evalAll builtins host locals es world) fun vs world => (.ok (v :: vs), world)

end

@[simp]
theorem andThen_ok {α β : Type} (a : α) (world : σ) (next : α → σ → Except Fault β × σ) :
    andThen (.ok a, world) next = next a world :=
  rfl

inductive Ending where
  | normal
  | broke
  | continued
  | failed (fault : Fault)
  deriving DecidableEq

/-- The ending of a statement, with the bindings and the world it leaves. -/
structure Completion (σ : Type) where
  ending : Ending
  locals : Locals
  world : σ

def withValue (locals : Locals) (outcome : Except Fault Value × σ)
    (next : Value → σ → Option (Completion σ)) : Option (Completion σ) :=
  match outcome with
  | (.ok v, world) => next v world
  | (.error fault, world) => some ⟨.failed fault, locals, world⟩

/-- What follows a round of a loop: another one after a normal end or `continue`, the normal
end of the loop after `break`, and nothing after a fault. -/
def afterRound (round : Completion σ) (again : Locals → σ → Option (Completion σ)) :
    Option (Completion σ) :=
  match round.ending with
  | .normal | .continued => again round.locals round.world
  | .broke => some ⟨.normal, round.locals, round.world⟩
  | .failed _ => some round

def repeatWhile (test : Locals → σ → Except Fault Value × σ)
    (body : Locals → σ → Option (Completion σ)) : Nat → Locals → σ → Option (Completion σ)
  | 0, _, _ => none
  | rounds + 1, locals, world =>
    withValue locals (test locals world) fun v world =>
      if v.isTruthy then
        (body locals world).bind fun round => afterRound round (repeatWhile test body rounds)
      else some ⟨.normal, locals, world⟩

/-- Rounds of a loop over the items of an iteration, each bound to the name in turn. -/
def repeatFor (id : String) (body : Locals → σ → Option (Completion σ)) :
    Nat → Iteration → Locals → σ → Option (Completion σ)
  | 0, _, _, _ => none
  | rounds + 1, i, locals, world =>
    match i.advance? with
    | none => some ⟨.normal, locals, world⟩
    | some (item, i) =>
      (body (locals.store id item) world).bind fun round =>
        afterRound round (repeatFor id body rounds i)

/-- Executes a statement, with at most so many rounds for each loop. -/
def Stmt.exec (builtins : BuiltinSet) (host : Host σ) (rounds : Nat) :
    Stmt → Locals → σ → Option (Completion σ)
  | .skip, locals, world => some ⟨.normal, locals, world⟩
  | .seq first second, locals, world =>
    (first.exec builtins host rounds locals world).bind fun o =>
      if o.ending = .normal then second.exec builtins host rounds o.locals o.world else some o
  | .evaluate _ e, locals, world =>
    withValue locals (e.eval builtins host locals world) fun _ world =>
      some ⟨.normal, locals, world⟩
  | .assign _ id e, locals, world =>
    withValue locals (e.eval builtins host locals world) fun v world =>
      some ⟨.normal, locals.store id v, world⟩
  | .augment _ id op _ e, locals, world =>
    withValue locals (locals.load? builtins id, world) fun x world =>
      withValue locals (e.eval builtins host locals world) fun y world =>
        withValue locals (x.arith op y, world) fun v world =>
          some ⟨.normal, locals.store id v, world⟩
  | .breakLoop _, locals, world => some ⟨.broke, locals, world⟩
  | .continueLoop _, locals, world => some ⟨.continued, locals, world⟩
  | .ifThen _ test body, locals, world =>
    withValue locals (test.eval builtins host locals world) fun v world =>
      if v.isTruthy then body.exec builtins host rounds locals world
      else some ⟨.normal, locals, world⟩
  | .ifElse _ test body _ orelse, locals, world =>
    withValue locals (test.eval builtins host locals world) fun v world =>
      if v.isTruthy then body.exec builtins host rounds locals world
      else orelse.exec builtins host rounds locals world
  | .whileLoop _ test body, locals, world =>
    repeatWhile (fun locals => test.eval builtins host locals) (body.exec builtins host rounds)
      rounds locals world
  | .forLoop _ id iterable body, locals, world =>
    withValue locals (iterable.eval builtins host locals world) fun v world =>
      match Machine.iterationOf v with
      | .ok i => repeatFor id (body.exec builtins host rounds) rounds i locals world
      | .error fault => some ⟨.failed fault, locals, world⟩

/-- The first computation has the outcomes of the second, and maybe more. -/
def Extends (more less : Locals → σ → Option (Completion σ)) : Prop :=
  ∀ locals world o, less locals world = some o → more locals world = some o

theorem withValue_mono {locals : Locals} {outcome : Except Fault Value × σ}
    {less more : Value → σ → Option (Completion σ)} {o : Completion σ}
    (mono : ∀ v world, less v world = some o → more v world = some o)
    (ended : withValue locals outcome less = some o) : withValue locals outcome more = some o := by
  rcases outcome with ⟨result, world⟩
  cases result with
  | error fault => exact ended
  | ok v => exact mono v world ended

theorem afterRound_mono {round o : Completion σ} {less more : Locals → σ → Option (Completion σ)}
    (mono : Extends more less) (ended : afterRound round less = some o) :
    afterRound round more = some o := by
  unfold afterRound at ended ⊢
  split
  · rename_i normal
    rw [normal] at ended
    exact mono _ _ _ ended
  · rename_i continued
    rw [continued] at ended
    exact mono _ _ _ ended
  · rename_i broke
    rw [broke] at ended
    exact ended
  · rename_i fault failed
    rw [failed] at ended
    exact ended

theorem repeatWhile_mono {test : Locals → σ → Except Fault Value × σ}
    {less more : Locals → σ → Option (Completion σ)} (mono : Extends more less) {n m : Nat}
    (le : n ≤ m) : Extends (repeatWhile test more m) (repeatWhile test less n) := by
  induction n generalizing m with
  | zero =>
      intro locals world o ended
      cases ended
  | succ n ih =>
      obtain ⟨m, rfl⟩ : ∃ k, m = k + 1 := ⟨m - 1, by omega⟩
      intro locals world o ended
      refine withValue_mono ?_ ended
      intro v world ended
      split at ended
      · rename_i holds
        rw [if_pos holds]
        obtain ⟨round, run, after⟩ := Option.bind_eq_some_iff.mp ended
        rw [mono _ _ _ run]
        exact afterRound_mono (ih (Nat.le_of_succ_le_succ le)) after
      · rename_i fails
        rw [if_neg fails]
        exact ended

theorem repeatFor_mono {id : String} {less more : Locals → σ → Option (Completion σ)}
    (mono : Extends more less) {n m : Nat} (le : n ≤ m) (i : Iteration) :
    Extends (repeatFor id more m i) (repeatFor id less n i) := by
  induction n generalizing m i with
  | zero =>
      intro locals world o ended
      cases ended
  | succ n ih =>
      obtain ⟨m, rfl⟩ : ∃ k, m = k + 1 := ⟨m - 1, by omega⟩
      intro locals world o ended
      unfold repeatFor at ended ⊢
      split
      · rename_i exhausted
        rw [exhausted] at ended
        exact ended
      · rename_i item left advanced
        rw [advanced] at ended
        obtain ⟨round, run, after⟩ := Option.bind_eq_some_iff.mp ended
        rw [mono _ _ _ run]
        exact afterRound_mono (ih (Nat.le_of_succ_le_succ le) left) after

theorem Stmt.exec_mono {builtins : BuiltinSet} {host : Host σ} {n m : Nat} (le : n ≤ m)
    (s : Stmt) : Extends (s.exec builtins host m) (s.exec builtins host n) := by
  induction s with
  | skip | evaluate | assign | augment | breakLoop | continueLoop =>
      intro locals world o ended
      exact ended
  | seq first second ihFirst ihSecond =>
      intro locals world o ended
      obtain ⟨middle, run, after⟩ := Option.bind_eq_some_iff.mp ended
      rw [Stmt.exec, ihFirst _ _ _ run]
      dsimp only [Option.bind_some]
      split at after
      · rename_i normal
        rw [if_pos normal]
        exact ihSecond _ _ _ after
      · rename_i stopped
        rw [if_neg stopped]
        exact after
  | ifThen _ test body ih =>
      intro locals world o ended
      refine withValue_mono ?_ ended
      intro v world ended
      split at ended
      · rename_i holds
        rw [if_pos holds]
        exact ih _ _ _ ended
      · rename_i fails
        rw [if_neg fails]
        exact ended
  | ifElse _ test body _ orelse ihBody ihElse =>
      intro locals world o ended
      refine withValue_mono ?_ ended
      intro v world ended
      split at ended
      · rename_i holds
        rw [if_pos holds]
        exact ihBody _ _ _ ended
      · rename_i fails
        rw [if_neg fails]
        exact ihElse _ _ _ ended
  | whileLoop _ test body ih => exact repeatWhile_mono ih le
  | forLoop _ id iterable body ih =>
      intro locals world o ended
      refine withValue_mono ?_ ended
      intro v world ended
      split at ended
      · exact repeatFor_mono ih le _ _ _ _ ended
      · exact ended

/-- A statement has at most one outcome, however many rounds it is given. -/
theorem Stmt.exec_unique {builtins : BuiltinSet} {host : Host σ} {n m : Nat} {s : Stmt}
    {locals : Locals} {world : σ} {o o' : Completion σ}
    (ended : s.exec builtins host n locals world = some o)
    (ended' : s.exec builtins host m locals world = some o') : o = o' := by
  have more := s.exec_mono (Nat.le_max_left n m) locals world o ended
  have more' := s.exec_mono (Nat.le_max_right n m) locals world o' ended'
  exact Option.some.inj (more.symm.trans more')

/-- The expressions have the same value, faults and effects, whatever surrounds them. -/
structure Expr.Same (e e' : Expr) : Prop where
  eval : ∀ {σ : Type} (builtins : BuiltinSet) (host : Host σ) (locals : Locals),
    e.eval builtins host locals = e'.eval builtins host locals

structure AllSame (es es' : List Expr) : Prop where
  eval : ∀ {σ : Type} (builtins : BuiltinSet) (host : Host σ) (locals : Locals),
    evalAll builtins host locals es = evalAll builtins host locals es'

structure Stmt.Same (s s' : Stmt) : Prop where
  exec : ∀ {σ : Type} (builtins : BuiltinSet) (host : Host σ) (rounds : Nat),
    s.exec builtins host rounds = s'.exec builtins host rounds

namespace Expr.Same

variable {line line' : Nat} {e e' l l' r r' : Expr}

protected theorem refl (e : Expr) : e.Same e :=
  ⟨fun _ _ _ => rfl⟩

theorem literal {l : Literal} : (Expr.literal line l).Same (.literal line' l) :=
  ⟨fun _ _ _ => rfl⟩

theorem name {id : String} : (Expr.name line id).Same (.name line' id) :=
  ⟨fun _ _ _ => rfl⟩

protected theorem symm (same : e.Same e') : e'.Same e :=
  ⟨fun builtins host locals => (same.eval builtins host locals).symm⟩

protected theorem trans {e'' : Expr} (same : e.Same e') (same' : e'.Same e'') : e.Same e'' :=
  ⟨fun builtins host locals =>
    (same.eval builtins host locals).trans (same'.eval builtins host locals)⟩

theorem negate (same : e.Same e') : (Expr.negate line e).Same (.negate line' e') := by
  constructor
  intro σ builtins host locals
  funext world
  change andThen _ _ = andThen _ _
  rw [same.eval builtins host locals]

theorem complement (same : e.Same e') :
    (Expr.complement line e).Same (.complement line' e') := by
  constructor
  intro σ builtins host locals
  funext world
  change andThen _ _ = andThen _ _
  rw [same.eval builtins host locals]

theorem arith (op : ArithOp) (left : l.Same l') (right : r.Same r') :
    (Expr.arith line op l r).Same (.arith line' op l' r') := by
  constructor
  intro σ builtins host locals
  funext world
  change andThen _ _ = andThen _ _
  rw [left.eval builtins host locals, right.eval builtins host locals]

theorem compare (op : CompareOp) (left : l.Same l') (right : r.Same r') :
    (Expr.compare line op l r).Same (.compare line' op l' r') := by
  constructor
  intro σ builtins host locals
  funext world
  change andThen _ _ = andThen _ _
  rw [left.eval builtins host locals, right.eval builtins host locals]

theorem both (left : l.Same l') (right : r.Same r') :
    (Expr.both line l r).Same (.both line' l' r') := by
  constructor
  intro σ builtins host locals
  funext world
  change andThen _ _ = andThen _ _
  rw [left.eval builtins host locals, right.eval builtins host locals]

theorem either (left : l.Same l') (right : r.Same r') :
    (Expr.either line l r).Same (.either line' l' r') := by
  constructor
  intro σ builtins host locals
  funext world
  change andThen _ _ = andThen _ _
  rw [left.eval builtins host locals, right.eval builtins host locals]

theorem call {args args' : List Expr} (callee : e.Same e')
    (all : AllSame args args') : (Expr.call line e args).Same (.call line' e' args') := by
  constructor
  intro σ builtins host locals
  funext world
  change andThen _ _ = andThen _ _
  rw [callee.eval builtins host locals, all.eval builtins host locals]

theorem both_assoc (l₁ l₂ l₃ l₄ : Nat) (a b c : Expr) :
    (Expr.both l₁ (.both l₂ a b) c).Same (.both l₃ a (.both l₄ b c)) := by
  constructor
  intro σ builtins host locals
  funext world
  simp only [Expr.eval]
  rcases a.eval builtins host locals world with ⟨_ | x, after⟩
  · rfl
  · cases holds : x.isTruthy <;> simp [holds]

theorem either_assoc (l₁ l₂ l₃ l₄ : Nat) (a b c : Expr) :
    (Expr.either l₁ (.either l₂ a b) c).Same (.either l₃ a (.either l₄ b c)) := by
  constructor
  intro σ builtins host locals
  funext world
  simp only [Expr.eval]
  rcases a.eval builtins host locals world with ⟨_ | x, after⟩
  · rfl
  · cases holds : x.isTruthy <;> simp [holds]

end Expr.Same

theorem AllSame.nil : AllSame [] [] :=
  ⟨fun _ _ _ => rfl⟩

theorem AllSame.cons {e e' : Expr} {es es' : List Expr} (head : e.Same e')
    (tail : AllSame es es') : AllSame (e :: es) (e' :: es') := by
  constructor
  intro σ builtins host locals
  funext world
  change andThen _ _ = andThen _ _
  rw [head.eval builtins host locals, tail.eval builtins host locals]

namespace Stmt.Same

variable {line line' : Nat} {e e' : Expr} {s s' t t' : Stmt}

protected theorem refl (s : Stmt) : s.Same s :=
  ⟨fun _ _ _ => rfl⟩

theorem breakLoop : (Stmt.breakLoop line).Same (.breakLoop line') :=
  ⟨fun _ _ _ => rfl⟩

theorem continueLoop : (Stmt.continueLoop line).Same (.continueLoop line') :=
  ⟨fun _ _ _ => rfl⟩

theorem seq (first : s.Same s') (second : t.Same t') : (Stmt.seq s t).Same (.seq s' t') := by
  constructor
  intro σ builtins host rounds
  funext locals world
  change Option.bind _ _ = Option.bind _ _
  rw [first.exec builtins host rounds, second.exec builtins host rounds]

theorem evaluate (same : e.Same e') : (Stmt.evaluate line e).Same (.evaluate line' e') := by
  constructor
  intro σ builtins host rounds
  funext locals world
  change withValue _ _ _ = withValue _ _ _
  rw [same.eval builtins host locals]

theorem assign (id : String) (same : e.Same e') :
    (Stmt.assign line id e).Same (.assign line' id e') := by
  constructor
  intro σ builtins host rounds
  funext locals world
  change withValue _ _ _ = withValue _ _ _
  rw [same.eval builtins host locals]

theorem augment {opLine opLine' : Nat} (id : String) (op : ArithOp) (same : e.Same e') :
    (Stmt.augment line id op opLine e).Same (.augment line' id op opLine' e') := by
  constructor
  intro σ builtins host rounds
  funext locals world
  change withValue _ _ _ = withValue _ _ _
  rw [same.eval builtins host locals]

theorem ifThen (test : e.Same e') (body : s.Same s') :
    (Stmt.ifThen line e s).Same (.ifThen line' e' s') := by
  constructor
  intro σ builtins host rounds
  funext locals world
  change withValue _ _ _ = withValue _ _ _
  rw [test.eval builtins host locals, body.exec builtins host rounds]

theorem ifElse {elseLine elseLine' : Nat} (test : e.Same e') (body : s.Same s')
    (orelse : t.Same t') :
    (Stmt.ifElse line e s elseLine t).Same (.ifElse line' e' s' elseLine' t') := by
  constructor
  intro σ builtins host rounds
  funext locals world
  change withValue _ _ _ = withValue _ _ _
  rw [test.eval builtins host locals, body.exec builtins host rounds,
    orelse.exec builtins host rounds]

theorem whileLoop (test : e.Same e') (body : s.Same s') :
    (Stmt.whileLoop line e s).Same (.whileLoop line' e' s') := by
  constructor
  intro σ builtins host rounds
  have tests : (fun locals => e.eval builtins host locals) =
      fun locals => e'.eval builtins host locals := funext (test.eval builtins host)
  change repeatWhile (fun locals => e.eval builtins host locals) _ _ = repeatWhile _ _ _
  rw [tests, body.exec builtins host rounds]

theorem forLoop (id : String) (iterable : e.Same e') (body : s.Same s') :
    (Stmt.forLoop line id e s).Same (.forLoop line' id e' s') := by
  constructor
  intro σ builtins host rounds
  funext locals world
  change withValue _ _ _ = withValue _ _ _
  rw [iterable.eval builtins host locals, body.exec builtins host rounds]

end Stmt.Same

end LessonScript
