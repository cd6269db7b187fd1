import LessonScript.Machine.Calls
import LessonScript.Proofs.StackShape

/-!
What operators and builtins can give back.

An outcome is tame when it is a value other than an iteration, or a fault that a script can
be blamed for.  Every operator is tame, and so is every builtin whose arguments hold no
iteration, as long as its host answers no request with a fault of the machine itself.
-/

namespace LessonScript

/-- The faults that point at the machine or its code, not at the script: the stack runs
empty, the instruction is unknown, an index or target is out of range, or the instruction
that advances an iteration finds none. -/
def Fault.GoesWrong : Fault → Prop
  | .underflow _ | .unknownOpcode .. | .internal _ => True
  | .typeMismatch expected _ => expected = "an iterator"
  | _ => False

/-- The host answers no request with a fault of the machine. -/
def Host.Sane {σ : Type} (host : Host σ) : Prop :=
  ∀ world prompt fault after, host.input world prompt = (.error fault, after) → ¬ fault.GoesWrong

/-- The result is not an iteration, or the fault is the script's own. -/
def Tame : Except Fault Value → Prop
  | .ok v => v.isIteration = false
  | .error fault => ¬ fault.GoesWrong

theorem Tame.of_arithmetic (fault : ArithmeticFault) : Tame (.error (.arithmetic fault)) :=
  id

theorem Tame.of_call (fault : CallFault) : Tame (.error (.call fault)) :=
  id

theorem Tame.bind {α : Type} {x : Except Fault α} {f : α → Except Fault Value}
    (first : ∀ fault, x = .error fault → ¬ fault.GoesWrong) (next : ∀ a, x = .ok a → Tame (f a)) :
    Tame (x >>= f) := by
  cases x with
  | error fault => exact first fault rfl
  | ok a => exact next a rfl

namespace Value

theorem ofExact_tame (op : String) (n : Int) : Tame (ofExact op n) := by
  unfold ofExact
  split
  · rfl
  · exact .of_arithmetic _

theorem onNumbers_tame (op : String) (f : Binary64 → Binary64 → Binary64) (a b : Value) :
    Tame (onNumbers op f a b) := by
  unfold onNumbers
  split
  · rfl
  · exact .of_arithmetic _

theorem onDivisor_tame (op : String) (f : Binary64 → Binary64 → Binary64) (a b : Value) :
    Tame (onDivisor op f a b) := by
  unfold onDivisor
  split
  · split
    · exact .of_arithmetic _
    · rfl
  · exact .of_arithmetic _

theorem repeated_tame (s : String) (count : Int) : Tame (repeated s count) := by
  unfold repeated
  split
  · rfl
  · split
    · rfl
    · exact .of_arithmetic _

theorem arith_tame (op : ArithOp) (a b : Value) : Tame (arith op a b) := by
  cases op with
  | add =>
      change Tame (add a b)
      unfold add
      split
      · exact ofExact_tame _ _
      · split
        · rfl
        · exact .of_arithmetic _
      · exact onNumbers_tame _ _ _ _
  | subtract =>
      change Tame (subtract a b)
      unfold subtract
      split
      · exact ofExact_tame _ _
      · exact onNumbers_tame _ _ _ _
  | multiply =>
      change Tame (multiply a b)
      unfold multiply
      split
      · exact ofExact_tame _ _
      · exact repeated_tame _ _
      · exact repeated_tame _ _
      · exact onNumbers_tame _ _ _ _
  | trueDivide => exact onDivisor_tame _ _ _ _
  | floorDivide =>
      change Tame (floorDivide a b)
      unfold floorDivide
      split
      · split
        · exact .of_arithmetic _
        · exact ofExact_tame _ _
      · exact onDivisor_tame _ _ _ _
  | modulo =>
      change Tame (modulo a b)
      unfold modulo
      split
      · split
        · exact .of_arithmetic _
        · exact ofExact_tame _ _
      · exact onDivisor_tame _ _ _ _

theorem negate_tame (a : Value) : Tame a.negate := by
  unfold negate
  split
  · exact ofExact_tame _ _
  · rfl
  · exact .of_arithmetic _

theorem comparison_tame (op : CompareOp) (a b : Value) : Tame (comparison op a b) := by
  unfold comparison
  split
  · rfl
  · rfl
  · split
    · rfl
    · split
      · rfl
      · exact .of_arithmetic _

end Value

namespace Builtin

theorem not_goesWrong_typeMismatch {expected : String} {kind : Kind}
    (other : expected ≠ "an iterator") : ¬ (Fault.typeMismatch expected kind).GoesWrong :=
  other

theorem integerOf_tame (f : Builtin) (x : Binary64) (n : Option Int) :
    Tame (integerOf f x n) := by
  cases n with
  | none => exact .of_call _
  | some n => exact Value.ofExact_tame _ _

theorem absOf_tame (v : Value) : Tame (absOf v) := by
  unfold absOf
  split
  · exact Value.ofExact_tame _ _
  · rfl
  · exact not_goesWrong_typeMismatch (by decide)

theorem lenOf_tame (v : Value) : Tame (lenOf v) := by
  unfold lenOf
  split
  · exact Value.ofExact_tame _ _
  · exact Value.ofExact_tame _ _
  · exact not_goesWrong_typeMismatch (by decide)

theorem intOf_tame (v : Value) : Tame (intOf v) := by
  unfold intOf
  split
  · rfl
  · rfl
  · exact integerOf_tame _ _ _
  · split
    · rfl
    · exact .of_call _
  · exact not_goesWrong_typeMismatch (by decide)

theorem floatOf_tame (v : Value) : Tame (floatOf v) := by
  unfold floatOf
  split
  · rfl
  · rfl
  · rfl
  · split
    · rfl
    · exact .of_call _
  · exact not_goesWrong_typeMismatch (by decide)

theorem roundOf_tame (v : Value) (places : Option Value) : Tame (roundOf v places) := by
  apply Tame.bind
  · intro fault failed
    unfold placesOf at failed
    split at failed
    · cases failed
    · cases failed
    · cases failed
    · cases failed
      exact not_goesWrong_typeMismatch (by decide)
  · intro places _
    split
    · rfl
    · unfold roundInt
      split
      · rfl
      · exact Value.ofExact_tame _ _
    · exact integerOf_tame _ _ _
    · rfl
    · exact not_goesWrong_typeMismatch (by decide)

theorem rangeOf_tame (args : List Value) : Tame (rangeOf args) := by
  apply Tame.bind
  · intro fault failed
    obtain ⟨v, _, rfl⟩ := exists_of_integers_error failed
    exact not_goesWrong_typeMismatch (by decide)
  · intro ns _
    dsimp only
    split
    · rfl
    · exact .of_call _

/-! An extreme is one of the values it is taken of. -/

theorem bestOf_tame (want : Ordering) (best : Value) (rest : List Value)
    (plainBest : best.isIteration = false) (plain : ∀ v ∈ rest, v.isIteration = false) :
    Tame (bestOf want best rest) := by
  induction rest generalizing best with
  | nil => exact plainBest
  | cons item rest ih =>
      have plainItem := plain item (List.mem_cons_self ..)
      have plainRest : ∀ v ∈ rest, v.isIteration = false :=
        fun v member => plain v (List.mem_cons_of_mem _ member)
      unfold bestOf
      split
      · apply ih
        · split
          · exact plainItem
          · exact plainBest
        · exact plainRest
      · split
        · exact ih best plainBest plainRest
        · exact .of_arithmetic _

theorem extremeOf_tame (f : Builtin) (want : Ordering) (values : List Value)
    (plain : ∀ v ∈ values, v.isIteration = false) : Tame (extremeOf f want values) := by
  cases values with
  | nil => exact .of_call _
  | cons first rest =>
      exact bestOf_tame want first rest (plain first (List.mem_cons_self ..))
        fun v member => plain v (List.mem_cons_of_mem _ member)

theorem last_between (p : Progression) (some : p.length ≠ 0) :
    Min.min p.start.toInt p.stop.toInt ≤ p.start.toInt + ((p.length : Int) - 1) * p.step.toInt ∧
      p.start.toInt + ((p.length : Int) - 1) * p.step.toInt ≤
        Max.max p.start.toInt p.stop.toInt := by
  generalize lengthEq : p.length = length at some
  unfold Progression.length at lengthEq
  dsimp only at lengthEq
  split at lengthEq
  · rename_i up
    have steps := Int.mul_ediv_self_le (x := p.stop.toInt - p.start.toInt - 1)
      (by omega : p.step.toInt ≠ 0)
    have nonneg := Int.ediv_nonneg (by omega : 0 ≤ p.stop.toInt - p.start.toInt - 1)
      (by omega : 0 ≤ p.step.toInt)
    have count : (length : Int) - 1 = (p.stop.toInt - p.start.toInt - 1) / p.step.toInt := by omega
    have positive := Int.mul_nonneg (by omega : 0 ≤ p.step.toInt) nonneg
    rw [count, Int.mul_comm]
    omega
  · split at lengthEq
    · rename_i down
      have steps := Int.mul_ediv_self_le (x := p.start.toInt - p.stop.toInt - 1)
        (by omega : -p.step.toInt ≠ 0)
      have nonneg := Int.ediv_nonneg (by omega : 0 ≤ p.start.toInt - p.stop.toInt - 1)
        (by omega : 0 ≤ -p.step.toInt)
      have count : (length : Int) - 1 = (p.start.toInt - p.stop.toInt - 1) / -p.step.toInt := by
        omega
      have positive := Int.mul_nonneg (by omega : 0 ≤ -p.step.toInt) nonneg
      have turned : ((length : Int) - 1) * p.step.toInt =
          -(-p.step.toInt * ((p.start.toInt - p.stop.toInt - 1) / -p.step.toInt)) := by
        rw [count, Int.mul_comm, Int.neg_mul, Int.neg_neg]
      rw [turned]
      omega
    · omega

theorem extremeOfProgression_tame (f : Builtin) (want : Ordering) (p : Progression) :
    Tame (extremeOfProgression f want p) := by
  unfold extremeOfProgression
  split
  · exact .of_call _
  · rename_i some
    have between := last_between p some
    have startLow := p.start.minValue_le_toInt
    have startHigh := p.start.toInt_le
    have stopLow := p.stop.minValue_le_toInt
    have stopHigh := p.stop.toInt_le
    dsimp only
    generalize p.start.toInt + ((p.length : Int) - 1) * p.step.toInt = last at between ⊢
    have pickLow : Int64.minValue.toInt ≤
        if want = .lt then Min.min p.start.toInt last else Max.max p.start.toInt last := by
      split <;> omega
    have pickHigh : (if want = .lt then Min.min p.start.toInt last
        else Max.max p.start.toInt last) ≤ Int64.maxValue.toInt := by
      split <;> omega
    rw [checkedInt64, if_pos ⟨pickLow, pickHigh⟩]
    rfl

theorem extreme_tame (f : Builtin) (want : Ordering) (args : List Value)
    (plain : ∀ v ∈ args, v.isIteration = false) : Tame (extreme f want args) := by
  unfold extreme
  split
  · exact extremeOfProgression_tame _ _ _
  · apply extremeOf_tame
    intro v member
    obtain ⟨c, _, rfl⟩ := List.mem_map.mp member
    rfl
  · exact not_goesWrong_typeMismatch (by decide)
  · exact extremeOf_tame _ _ _ plain

theorem resultOf_tame (f : Builtin) (args : List Value)
    (accepted : f.arity.accepts args.length = true)
    (plain : ∀ v ∈ args, v.isIteration = false) : Tame (f.resultOf args) := by
  cases args with
  | nil =>
      cases f with
      | print | input => rfl
      | abs | min | max | len | str | int | float | round | range => cases accepted
  | cons v rest =>
      cases f with
      | print | input | str => rfl
      | abs => exact absOf_tame v
      | min => exact extreme_tame _ _ _ plain
      | max => exact extreme_tame _ _ _ plain
      | len => exact lenOf_tame v
      | int => exact intOf_tame v
      | float => exact floatOf_tame v
      | round => exact roundOf_tame v _
      | range => exact rangeOf_tame _

theorem call_tame {σ : Type} {host : Host σ} (sane : host.Sane) (world : σ) (f : Builtin)
    (args : List Value) (plain : ∀ v ∈ args, v.isIteration = false) :
    Tame (f.call host world args).1 := by
  unfold call
  split
  · rename_i accepted
    cases f with
    | print => rfl
    | input =>
        cases answer : host.input world (promptOf args) with
        | mk result after =>
            cases result with
            | error fault => exact sane _ _ _ _ answer
            | ok line => rfl
    | abs | min | max | len | str | int | float | round | range =>
        exact resultOf_tame _ args accepted plain
  · exact .of_call _

end Builtin

end LessonScript
