import LessonScript.Proofs.ResultForms
import LessonScript.Proofs.RunSteps

/-!
Where complaints about a text come from in a run.

A complaint about a text names a line of its own, which has nothing to do with the instruction that
failed.  No operation of the machine raises one, so in a run there is none but those with which a
host answers a request for input (`Machine.dispatch_syntax`).
-/

namespace LessonScript

def NoSyntax {α : Type} : Except Fault α → Prop
  | .ok _ => True
  | .error fault => fault.isSyntax = false

theorem NoSyntax.bind {α β : Type} {x : Except Fault α} {f : α → Except Fault β}
    (first : NoSyntax x) (onward : ∀ a, NoSyntax (f a)) : NoSyntax (x >>= f) := by
  cases x with
  | ok a => exact onward a
  | error fault => exact first

theorem NoSyntax.map {α β : Type} {x : Except Fault α} (first : NoSyntax x) (f : α → β) :
    NoSyntax (x.map f) := by
  cases x with
  | ok a => trivial
  | error fault => exact first

theorem Value.Computes.noSyntax {r : Except Fault Value} (computes : Computes r) : NoSyntax r := by
  cases computes with
  | value => trivial
  | fault => rfl

namespace Builtin

open Value

theorem integerOf_noSyntax (f : Builtin) (x : Binary64) (n : Option Int) :
    NoSyntax (integerOf f x n) := by
  unfold integerOf
  split
  · exact (ofExact_computes _ _).noSyntax
  · rfl

theorem intOf_noSyntax (v : Value) : NoSyntax (intOf v) := by
  unfold intOf
  split
  · trivial
  · trivial
  · exact integerOf_noSyntax _ _ _
  · split
    · trivial
    · rfl
  · rfl

theorem floatOf_noSyntax (v : Value) : NoSyntax (floatOf v) := by
  unfold floatOf
  split
  · trivial
  · trivial
  · trivial
  · split
    · trivial
    · rfl
  · rfl

theorem roundOf_noSyntax (v : Value) (places : Option Value) : NoSyntax (roundOf v places) := by
  have counted : NoSyntax (placesOf places) := by
    unfold placesOf
    split <;> trivial
  refine counted.bind fun places => ?_
  split
  · trivial
  · unfold roundInt
    split
    · trivial
    · exact (ofExact_computes _ _).noSyntax
  · exact integerOf_noSyntax _ _ _
  · trivial
  · rfl

theorem rangeOf_noSyntax (args : List Value) : NoSyntax (rangeOf args) := by
  have bounds : NoSyntax (integers args) := by
    cases read : integers args with
    | ok ns => trivial
    | error fault =>
        obtain ⟨v, _, rfl⟩ := exists_of_integers_error read
        rfl
  refine bounds.bind fun bounds => ?_
  dsimp only
  split
  · trivial
  · rfl

theorem bestOf_noSyntax (want : Ordering) (best : Value) (rest : List Value) :
    NoSyntax (bestOf want best rest) := by
  induction rest generalizing best with
  | nil => trivial
  | cons item rest ih =>
      unfold bestOf
      split
      · exact ih _
      · split
        · exact ih _
        · rfl

theorem extreme_noSyntax (f : Builtin) (want : Ordering) (args : List Value) :
    NoSyntax (extreme f want args) := by
  have ofValues (values : List Value) : NoSyntax (extremeOf f want values) := by
    cases values with
    | nil => rfl
    | cons first rest => exact bestOf_noSyntax _ _ _
  unfold extreme
  split
  · unfold extremeOfProgression
    split
    · rfl
    · dsimp only
      split
      · trivial
      · rfl
  · exact ofValues _
  · rfl
  · exact ofValues _

theorem absOf_noSyntax (v : Value) : NoSyntax (absOf v) := by
  unfold absOf
  split
  · exact (ofExact_computes _ _).noSyntax
  · trivial
  · rfl

theorem lenOf_noSyntax (v : Value) : NoSyntax (lenOf v) := by
  unfold lenOf
  split
  · exact (ofExact_computes _ _).noSyntax
  · exact (ofExact_computes _ _).noSyntax
  · rfl

theorem resultOf_noSyntax (f : Builtin) (args : List Value) : NoSyntax (f.resultOf args) := by
  cases args with
  | nil =>
      cases f with
      | print | input => trivial
      | min => exact extreme_noSyntax min .lt []
      | max => exact extreme_noSyntax max .gt []
      | range => exact rangeOf_noSyntax _
      | abs | len | str | int | float | round => rfl
  | cons v rest =>
      cases f with
      | print | input | str => trivial
      | min | max => exact extreme_noSyntax _ _ _
      | range => exact rangeOf_noSyntax _
      | abs => exact absOf_noSyntax v
      | len => exact lenOf_noSyntax v
      | int => exact intOf_noSyntax v
      | float => exact floatOf_noSyntax v
      | round => exact roundOf_noSyntax v _

theorem call_syntax {σ : Type} {host : Host σ} {world after : σ} {f : Builtin} {args : List Value}
    {fault : Fault} (failed : f.call host world args = (.error fault, after))
    (complains : fault.isSyntax = true) :
    ∃ prompt, host.input world prompt = (.error fault, after) := by
  unfold call at failed
  split at failed
  · have plain (same : f.resultOf args = .error fault) : False := by
      have outcome := f.resultOf_noSyntax args
      rw [same] at outcome
      cases outcome.symm.trans complains
    cases f with
    | print => cases failed
    | input =>
        cases answered : host.input world (promptOf args) with
        | mk answer behind =>
            simp only [answered] at failed
            cases answer with
            | ok line => cases failed
            | error refused =>
                cases failed
                exact ⟨_, answered⟩
    | abs | min | max | len | str | int | float | round | range =>
        exact (plain (Prod.mk.inj failed).1).elim
  · cases failed
    cases complains

end Builtin

namespace Machine

theorem push?_noSyntax (m : Machine) (v : Value) : NoSyntax (m.push? v) := by
  refine NoSyntax.bind ?_ fun _ => trivial
  unfold Stack.push?
  split
  · rfl
  · trivial

theorem jump?_noSyntax (p : Program) (m : Machine) (target : Nat) :
    NoSyntax (m.jump? p target) := by
  unfold jump?
  split
  · trivial
  · rfl

theorem pop?_noSyntax (s : Stack) (opcode : String) : NoSyntax (s.pop? opcode) := by
  unfold Stack.pop?
  split
  · rfl
  · trivial

theorem peek?_noSyntax (s : Stack) (opcode : String) : NoSyntax (s.peek? opcode) := by
  unfold Stack.peek?
  split
  · rfl
  · trivial

theorem name?_noSyntax (p : Program) (index : Nat) : NoSyntax (p.name? index) := by
  unfold Program.name?
  split
  · trivial
  · rfl

theorem unary?_noSyntax (m : Machine) (opcode : String) {f : Value → Except Fault Value}
    (plain : ∀ v, NoSyntax (f v)) : NoSyntax (m.unary? opcode f) := by
  refine (pop?_noSyntax _ _).bind ?_
  rintro ⟨v, stack⟩
  exact (plain v).bind fun _ => push?_noSyntax _ _

theorem binary?_noSyntax (m : Machine) (opcode : String) {f : Value → Value → Except Fault Value}
    (plain : ∀ a b, NoSyntax (f a b)) : NoSyntax (m.binary? opcode f) := by
  refine (pop?_noSyntax _ _).bind ?_
  rintro ⟨b, stack⟩
  refine (pop?_noSyntax _ _).bind ?_
  rintro ⟨a, stack⟩
  exact (plain a b).bind fun _ => push?_noSyntax _ _

theorem forIter?_noSyntax (p : Program) (m : Machine) (opcode : String) (target : Nat) :
    NoSyntax (m.forIter? p opcode target) := by
  refine (peek?_noSyntax _ _).bind fun v => ?_
  split
  · split
    · refine NoSyntax.bind ?_ fun _ => push?_noSyntax _ _
      unfold Stack.replaceTop?
      split
      · rfl
      · trivial
    · exact (pop?_noSyntax _ _).bind fun _ => jump?_noSyntax _ _ _
  · rfl

theorem perform?_noSyntax (p : Program) (builtins : BuiltinSet) (m : Machine) (op : Opcode) :
    NoSyntax (m.perform? p builtins op) := by
  have goesOn {x : Except Fault Machine} (plain : NoSyntax x) :
      NoSyntax (x >>= fun m => pure (Flow.goOn m)) := plain.bind fun _ => trivial
  cases op with
  | loadConst index =>
      refine NoSyntax.bind ?_ fun v => goesOn (push?_noSyntax _ _)
      unfold Program.constant?
      split
      · trivial
      · rfl
  | loadName index | loadFast index =>
      refine (name?_noSyntax _ _).bind fun id => ?_
      refine NoSyntax.bind ?_ fun v => goesOn (push?_noSyntax _ _)
      unfold Locals.load?
      split
      · trivial
      · split
        · trivial
        · rfl
  | storeName index | storeFast index =>
      refine (pop?_noSyntax _ _).bind fun _ => ?_
      exact (name?_noSyntax _ _).bind fun _ => trivial
  | arith op =>
      exact goesOn (binary?_noSyntax _ _ fun a b => (Value.arith_computes op a b).noSyntax)
  | negate => exact goesOn (unary?_noSyntax _ _ fun v => (Value.negate_computes v).noSyntax)
  | complement => exact goesOn (unary?_noSyntax _ _ fun _ => trivial)
  | compare op =>
      exact goesOn (binary?_noSyntax _ _ fun a b => (Value.comparison_computes op a b).noSyntax)
  | call => trivial
  | popTop | returnValue => exact (pop?_noSyntax _ _).bind fun _ => trivial
  | jump target => exact goesOn (jump?_noSyntax _ _ _)
  | popJumpIf truth target =>
      refine (pop?_noSyntax _ _).bind ?_
      rintro ⟨v, stack⟩
      dsimp only
      split
      · exact goesOn (jump?_noSyntax _ _ _)
      · trivial
  | jumpIfOrPop truth target =>
      refine (peek?_noSyntax _ _).bind fun v => ?_
      dsimp only
      split
      · exact goesOn (jump?_noSyntax _ _ _)
      · exact (pop?_noSyntax _ _).bind fun _ => trivial
  | getIter =>
      refine (pop?_noSyntax _ _).bind ?_
      rintro ⟨v, stack⟩
      refine NoSyntax.bind ?_ fun i => goesOn (push?_noSyntax _ _)
      unfold iterationOf
      split <;> trivial
  | forIter target => exact goesOn (forIter?_noSyntax _ _ _ _)
  | unknown mnemonic arg => rfl

theorem dispatch_syntax {σ : Type} {host : Host σ} {p : Program} {builtins : BuiltinSet}
    {m : Machine} {world after : σ} {op : Opcode} {fault : Fault}
    (failed : dispatch p builtins host m world op = (.error fault, after))
    (complains : fault.isSyntax = true) :
    ∃ prompt, host.input world prompt = (.error fault, after) := by
  unfold dispatch at failed
  split at failed
  · cases performCall_failed failed with
    | missing | notCallable => cases complains
    | builtin failed => exact Builtin.call_syntax failed complains
  · have plain := m.perform?_noSyntax p builtins op
    rw [(Prod.mk.inj failed).1] at plain
    cases plain.symm.trans complains

end Machine

end LessonScript
