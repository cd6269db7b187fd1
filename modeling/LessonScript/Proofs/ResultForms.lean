import LessonScript.Machine.Calls

/-!
The forms that results take.

An operator computes a truth value, a number or a text within the greatest length, or it fails
with a fault of arithmetic.  A builtin gives such a value, a progression, the text of one of its
arguments or the argument itself, or it fails with a fault that is no limit.  So a callable or an
iteration comes out of a builtin only if it went in.
-/

namespace LessonScript

/-- The fault is a limit of the run, not a fault of what the script does. -/
def Fault.isLimit : Fault → Bool
  | .limit _ => true
  | _ => false

namespace Value

inductive Computed : Value → Prop
  | bool (b : Bool) : Computed (.bool b)
  | int (n : Int64) : Computed (.int n)
  | float (x : Binary64) : Computed (.float x)
  | text {s : String} (short : s.utf8ByteSize ≤ maxTextBytes) : Computed (.str s)

inductive Computes : Except Fault Value → Prop
  | value {v : Value} (computed : v.Computed) : Computes (.ok v)
  | fault (fault : ArithmeticFault) : Computes (.error (.arithmetic fault))

theorem ofExact_computes (op : String) (n : Int) : Computes (ofExact op n) := by
  unfold ofExact
  split
  · exact .value (.int _)
  · exact .fault _

theorem onNumbers_computes (op : String) (f : Binary64 → Binary64 → Binary64) (a b : Value) :
    Computes (onNumbers op f a b) := by
  unfold onNumbers
  split
  · exact .value (.float _)
  · exact .fault _

theorem onDivisor_computes (op : String) (f : Binary64 → Binary64 → Binary64) (a b : Value) :
    Computes (onDivisor op f a b) := by
  unfold onDivisor
  split
  · split
    · exact .fault _
    · exact .value (.float _)
  · exact .fault _

theorem utf8ByteSize_textTimes (s : String) (count : Nat) :
    (textTimes s count).utf8ByteSize = s.utf8ByteSize * count := by
  rw [textTimes_eq]
  induction count with
  | zero => rfl
  | succ count ih =>
      rw [List.replicate_succ, String.join_cons, String.utf8ByteSize_append, ih, Nat.mul_succ,
        Nat.add_comm]

theorem repeated_computes (s : String) (count : Int) : Computes (repeated s count) := by
  unfold repeated
  split
  · exact .value (.text (Nat.zero_le _))
  · split
    · rename_i short
      rw [← utf8ByteSize_textTimes] at short
      exact .value (.text short)
    · exact .fault _

theorem arith_computes (op : ArithOp) (a b : Value) : Computes (arith op a b) := by
  cases op with
  | add =>
      change Computes (add a b)
      unfold add
      split
      · exact ofExact_computes _ _
      · split
        · rename_i short
          exact .value (.text (by rwa [String.utf8ByteSize_append]))
        · exact .fault _
      · exact onNumbers_computes _ _ _ _
  | subtract =>
      change Computes (subtract a b)
      unfold subtract
      split
      · exact ofExact_computes _ _
      · exact onNumbers_computes _ _ _ _
  | multiply =>
      change Computes (multiply a b)
      unfold multiply
      split
      · exact ofExact_computes _ _
      · exact repeated_computes _ _
      · exact repeated_computes _ _
      · exact onNumbers_computes _ _ _ _
  | trueDivide => exact onDivisor_computes _ _ _ _
  | floorDivide =>
      change Computes (floorDivide a b)
      unfold floorDivide
      split
      · split
        · exact .fault _
        · exact ofExact_computes _ _
      · exact onDivisor_computes _ _ _ _
  | modulo =>
      change Computes (modulo a b)
      unfold modulo
      split
      · split
        · exact .fault _
        · exact ofExact_computes _ _
      · exact onDivisor_computes _ _ _ _

theorem negate_computes (a : Value) : Computes a.negate := by
  unfold negate
  split
  · exact ofExact_computes _ _
  · exact .value (.float _)
  · exact .fault _

theorem comparison_computes (op : CompareOp) (a b : Value) : Computes (comparison op a b) := by
  unfold comparison
  split
  · exact .value (.bool _)
  · exact .value (.bool _)
  · split
    · exact .value (.bool _)
    · split
      · exact .value (.bool _)
      · exact .fault _

end Value

namespace Builtin

inductive Gives (args : List Value) : Except Fault Value → Prop
  | nothing : Gives args (.ok .nothing)
  | computed {v : Value} (computed : v.Computed) : Gives args (.ok v)
  | range (p : Progression) : Gives args (.ok (.range p))
  | text {v : Value} (member : v ∈ args) : Gives args (.ok (.str v.text))
  | argument {v : Value} (member : v ∈ args) : Gives args (.ok v)
  | fault {fault : Fault} (own : fault.isLimit = false) : Gives args (.error fault)

section Gives

variable {args : List Value}

theorem Gives.of_computes {r : Except Fault Value} (computes : Value.Computes r) :
    Gives args r := by
  cases computes with
  | value computed => exact .computed computed
  | fault => exact .fault rfl

theorem Gives.bind {α : Type} {x : Except Fault α} {f : α → Except Fault Value}
    (first : ∀ fault, x = .error fault → fault.isLimit = false)
    (next : ∀ a, x = .ok a → Gives args (f a)) : Gives args (x >>= f) := by
  cases x with
  | error fault => exact .fault (first fault rfl)
  | ok a => exact next a rfl

theorem integerOf_gives (f : Builtin) (x : Binary64) (n : Option Int) :
    Gives args (integerOf f x n) := by
  cases n with
  | none => exact .fault rfl
  | some n => exact .of_computes (Value.ofExact_computes _ _)

theorem absOf_gives (v : Value) : Gives args (absOf v) := by
  unfold absOf
  split
  · exact .of_computes (Value.ofExact_computes _ _)
  · exact .computed (.float _)
  · exact .fault rfl

theorem lenOf_gives (v : Value) : Gives args (lenOf v) := by
  unfold lenOf
  split
  · exact .of_computes (Value.ofExact_computes _ _)
  · exact .of_computes (Value.ofExact_computes _ _)
  · exact .fault rfl

theorem intOf_gives (v : Value) : Gives args (intOf v) := by
  unfold intOf
  split
  · exact .computed (.int _)
  · exact .computed (.int _)
  · exact integerOf_gives _ _ _
  · split
    · exact .computed (.int _)
    · exact .fault rfl
  · exact .fault rfl

theorem floatOf_gives (v : Value) : Gives args (floatOf v) := by
  unfold floatOf
  split
  · exact .computed (.float _)
  · exact .computed (.float _)
  · exact .computed (.float _)
  · split
    · exact .computed (.float _)
    · exact .fault rfl
  · exact .fault rfl

theorem roundOf_gives (v : Value) (places : Option Value) : Gives args (roundOf v places) := by
  apply Gives.bind
  · intro fault failed
    unfold placesOf at failed
    split at failed
    · cases failed
    · cases failed
    · cases failed
    · cases failed
      rfl
  · intro places _
    split
    · exact .computed (.int _)
    · unfold roundInt
      split
      · exact .computed (.int _)
      · exact .of_computes (Value.ofExact_computes _ _)
    · exact integerOf_gives _ _ _
    · exact .computed (.float _)
    · exact .fault rfl

theorem rangeOf_gives (values : List Value) : Gives args (rangeOf values) := by
  apply Gives.bind
  · intro fault failed
    obtain ⟨v, _, rfl⟩ := exists_of_integers_error failed
    rfl
  · intro ns _
    dsimp only
    split
    · exact .range _
    · exact .fault rfl

theorem bestOf_gives (want : Ordering) (best : Value) (rest : List Value)
    (first : Gives args (.ok best)) (others : ∀ v ∈ rest, Gives args (.ok v)) :
    Gives args (bestOf want best rest) := by
  induction rest generalizing best with
  | nil => exact first
  | cons item rest ih =>
      have atItem := others item (List.mem_cons_self ..)
      have behind : ∀ v ∈ rest, Gives args (.ok v) :=
        fun v member => others v (List.mem_cons_of_mem _ member)
      unfold bestOf
      split
      · apply ih _ _ behind
        split
        · exact atItem
        · exact first
      · split
        · exact ih best first behind
        · exact .fault rfl

theorem extremeOf_gives (f : Builtin) (want : Ordering) (values : List Value)
    (items : ∀ v ∈ values, Gives args (.ok v)) : Gives args (extremeOf f want values) := by
  cases values with
  | nil => exact .fault rfl
  | cons first rest =>
      exact bestOf_gives want first rest (items first (List.mem_cons_self ..))
        fun v member => items v (List.mem_cons_of_mem _ member)

theorem extreme_gives (f : Builtin) (want : Ordering) : Gives args (extreme f want args) := by
  unfold extreme
  split
  · unfold extremeOfProgression
    split
    · exact .fault rfl
    · dsimp only
      split
      · exact .computed (.int _)
      · exact .fault rfl
  · apply extremeOf_gives
    intro v member
    obtain ⟨c, _, rfl⟩ := List.mem_map.mp member
    have size : (String.ofList [c]).utf8ByteSize ≤ Value.maxTextBytes := by
      rw [← String.singleton_eq_ofList, String.utf8ByteSize_singleton]
      exact Nat.le_trans c.utf8Size_le_four (by decide)
    exact .computed (.text size)
  · exact .fault rfl
  · exact extremeOf_gives _ _ _ fun v member => .argument member

end Gives

theorem resultOf_gives (f : Builtin) (args : List Value) : Gives args (f.resultOf args) := by
  cases args with
  | nil =>
      cases f with
      | print | input => exact .nothing
      | min => exact extreme_gives min .lt
      | max => exact extreme_gives max .gt
      | range => exact rangeOf_gives _
      | abs | len | str | int | float | round => exact .fault rfl
  | cons v rest =>
      cases f with
      | print | input => exact .nothing
      | abs => exact absOf_gives v
      | min => exact extreme_gives min .lt
      | max => exact extreme_gives max .gt
      | len => exact lenOf_gives v
      | str => exact .text (List.mem_cons_self ..)
      | int => exact intOf_gives v
      | float => exact floatOf_gives v
      | round => exact roundOf_gives v _
      | range => exact rangeOf_gives _

end Builtin

end LessonScript
