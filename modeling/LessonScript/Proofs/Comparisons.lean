import LessonScript.Proofs.FloatText
import LessonScript.Proofs.TextBytes
import LessonScript.Value.Arithmetic

/-!
The six comparisons of scripts agree with each other.

Equality and order are defined apart, each by kinds.  They go together wherever there is an order:
two values that have one are equal exactly if neither comes first (`Value.equals_of_orderable`).
So on two numbers, or on two texts, all six comparisons are read off one order, or off its absence
where an operand is not a number (`Value.comparison_of_orderable`); on other values the four that
need an order are refused.
-/

namespace LessonScript

/-- What a comparison says of an order.  Without an order the operands only differ. -/
def CompareOp.judge (op : CompareOp) : Option Ordering → Bool
  | some order => op.holds order
  | none => op == .ne

namespace Value

/-- Two numbers, or two texts: the values that scripts can put in an order. -/
def Orderable (a b : Value) : Prop :=
  (a.kind.isNumeric = true ∧ b.kind.isNumeric = true) ∨ (a.kind = .str ∧ b.kind = .str)

/-- The comparison succeeds, with this answer. -/
def Decides (op : CompareOp) (a b : Value) (answer : Bool) : Prop :=
  comparison op a b = .ok (.bool answer)

def isNaN : Value → Bool
  | float x => x.isNaN
  | _ => false

theorem compare?_swap (a b : Value) : b.compare? a = (a.compare? b).map Ordering.swap := by
  cases a with
  | int m =>
      cases b with
      | int n => exact congrArg some Std.OrientedOrd.eq_swap
      | float y => exact Binary64.compare?_swap y _
      | _ => rfl
  | float x =>
      cases b with
      | int n => exact Binary64.compare?_swap _ x
      | float y => exact Binary64.compare?_swap y x
      | _ => rfl
  | str s =>
      cases b with
      | str t => exact congrArg some Std.OrientedOrd.eq_swap
      | _ => rfl
  | _ => cases b <;> rfl

theorem compare?_of_not_orderable {a b : Value} (refused : ¬ Orderable a b) :
    a.compare? b = none := by
  cases a with
  | int | float =>
      cases b with
      | int | float => exact absurd (.inl ⟨rfl, rfl⟩) refused
      | _ => rfl
  | str =>
      cases b with
      | str => exact absurd (.inr ⟨rfl, rfl⟩) refused
      | _ => rfl
  | _ => rfl

theorem Orderable.symm {a b : Value} (orderable : Orderable a b) : Orderable b a :=
  orderable.imp And.symm And.symm

theorem isNone_compare? {a b : Value} (orderable : Orderable a b) :
    (a.compare? b).isNone = (a.isNaN || b.isNaN) := by
  have whole (n : Int) : (Binary64.ofInt n).isNaN = false := Binary64.isNaN_ofQuotient _ _ _
  have floats (x y : Binary64) : (x.compare? y).isNone = (x.isNaN || y.isNaN) := by
    unfold Binary64.compare?
    cases x.isNaN || y.isNaN <;> rfl
  cases orderable with
  | inl numeric =>
      cases a with
      | int m =>
          cases b with
          | int n => rfl
          | float y => exact (floats _ y).trans (congrArg (· || y.isNaN) (whole _))
          | _ => cases numeric.2
      | float x =>
          cases b with
          | int n => exact (floats x _).trans (congrArg (x.isNaN || ·) (whole _))
          | float y => exact floats x y
          | _ => cases numeric.2
      | _ => cases numeric.1
  | inr texts =>
      cases a with
      | str s =>
          cases b with
          | str t => rfl
          | _ => cases texts.2
      | _ => cases texts.1

theorem equals_floats_comm (x y : Binary64) :
    (x.compare? y == some .eq) = (y.compare? x == some .eq) := by
  rw [Binary64.compare?_swap x y]
  cases y.compare? x with
  | none => rfl
  | some order => cases order <;> rfl

theorem equals_comm (a b : Value) : a.equals b = b.equals a := by
  cases a with
  | nothing => cases b <;> rfl
  | float x =>
      cases b with
      | float y => exact equals_floats_comm x y
      | _ => rfl
  | bool | int | str | builtin | range | iter => cases b <;> simp only [equals, BEq.comm]

/-- Where there can be an order, two values are equal exactly if neither comes first. -/
theorem equals_of_orderable {a b : Value} (orderable : Orderable a b) :
    a.equals b = (a.compare? b == some .eq) := by
  have lawful {α : Type} [Ord α] [Std.LawfulEqOrd α] [BEq α] [LawfulBEq α] (x y : α) :
      (x == y) = (some (compare x y) == some .eq) := by
    rw [Bool.eq_iff_iff, beq_iff_eq, beq_iff_eq, Option.some.injEq, Std.compare_eq_iff_eq]
  cases orderable with
  | inl numeric =>
      cases a with
      | int m =>
          cases b with
          | int n => exact lawful m n
          | float y => rfl
          | _ => cases numeric.2
      | float x =>
          cases b with
          | int n => exact equals_floats_comm _ x
          | float y => rfl
          | _ => cases numeric.2
      | _ => cases numeric.1
  | inr texts =>
      cases a with
      | str s =>
          cases b with
          | str t => exact lawful s t
          | _ => cases texts.2
      | _ => cases texts.1

theorem numeric_of_compare?_none {a b : Value} (orderable : Orderable a b)
    (missing : a.compare? b = none) : (a.kind.isNumeric && b.kind.isNumeric) = true := by
  cases orderable with
  | inl numeric => rw [numeric.1, numeric.2, Bool.and_self]
  | inr texts =>
      cases a with
      | str s =>
          cases b with
          | str t => cases missing
          | _ => cases texts.2
      | _ => cases texts.1

/-- Two numbers, or two texts, are compared by their order alone. -/
theorem comparison_of_orderable {a b : Value} (orderable : Orderable a b) (op : CompareOp) :
    Decides op a b (op.judge (a.compare? b)) := by
  have equal := equals_of_orderable orderable
  have numeric := numeric_of_compare?_none orderable
  unfold Decides comparison
  cases found : a.compare? b with
  | some order =>
      rw [found] at equal
      cases op with
      | eq | ne =>
          rw [equal]
          cases order <;> rfl
      | _ => rfl
  | none =>
      rw [found] at equal
      cases op with
      | eq | ne =>
          rw [equal]
          rfl
      | _ =>
          dsimp only
          rw [if_pos (numeric found)]
          rfl

theorem comparison_of_not_orderable {a b : Value} (refused : ¬ Orderable a b) {op : CompareOp}
    (ordering : op ∈ [.lt, .gt, .le, .ge]) :
    comparison op a b = .error (unsupported op.symbol a b) := by
  have mixed : ¬ (a.kind.isNumeric && b.kind.isNumeric) = true := by
    intro numeric
    exact refused (.inl (Bool.and_eq_true_iff.mp numeric))
  unfold comparison
  cases op with
  | eq | ne => simp at ordering
  | _ =>
      dsimp only
      rw [compare?_of_not_orderable refused]
      exact if_neg mixed

/-- Equality never fails, and its negation and its mirror image are what they should be. -/
theorem equality_coherent (a b : Value) :
    ∃ equal, Decides .eq a b equal ∧ Decides .ne a b (!equal) ∧
      Decides .eq b a equal ∧ Decides .ne b a (!equal) := by
  have mirrored : Decides .eq b a (b.equals a) ∧ Decides .ne b a (!b.equals a) := ⟨rfl, rfl⟩
  rw [equals_comm b a] at mirrored
  exact ⟨a.equals b, rfl, rfl, mirrored⟩

/-- Of two values with an order exactly one comes first, or they are equal, or one of them is not
a number; and the order tells all comparisons, both ways round. -/
theorem order_coherent {a b : Value} (orderable : Orderable a b) :
    ∃ less equal greater,
      Decides .lt a b less ∧ Decides .eq a b equal ∧ Decides .gt a b greater ∧
      Decides .le a b (less || equal) ∧ Decides .ge a b (greater || equal) ∧
      Decides .gt b a less ∧ Decides .lt b a greater ∧
      [less, equal, greater].count true = if a.isNaN || b.isNaN then 0 else 1 := by
  have told := comparison_of_orderable orderable
  have mirrored := comparison_of_orderable orderable.symm
  rw [compare?_swap] at mirrored
  refine ⟨CompareOp.lt.judge (a.compare? b), CompareOp.eq.judge (a.compare? b),
    CompareOp.gt.judge (a.compare? b), told .lt, told .eq, told .gt, ?_⟩
  have le := told .le
  have ge := told .ge
  have gt := mirrored .gt
  have lt := mirrored .lt
  rw [← isNone_compare? orderable]
  -- What is left can be read off the order, so it is computed for each of them and for none.
  cases found : a.compare? b with
  | none =>
      rw [found] at le ge gt lt
      exact ⟨le, ge, gt, lt, rfl⟩
  | some order =>
      rw [found] at le ge gt lt
      cases order <;> exact ⟨le, ge, gt, lt, rfl⟩

theorem texts_coherent (op : CompareOp) (s t : String) :
    Decides op (.str s) (.str t)
        (op.holds (compare s.toUTF8.data.toList t.toUTF8.data.toList)) ∧
      Decides op (.str s) (.str t)
        (op.holds (compare (codePoints s.toList) (codePoints t.toList))) := by
  have ordered : Decides op (.str s) (.str t) (op.holds (compare s t)) :=
    comparison_of_orderable (.inr ⟨rfl, rfl⟩) op
  rw [compare_toUTF8, compare_codePoints]
  exact ⟨ordered, ordered⟩

/-- Equality and order agree on all pairs of values.  Equality is defined for every pair, in both
directions alike.  The other four comparisons are defined for the same pairs: on two numbers or two
texts they go with equality and with each other, and on other pairs each is refused.  Texts are in
the order of their bytes, and of the numbers of their characters. -/
theorem comparisons_coherent (a b : Value) :
    (∃ equal, Decides .eq a b equal ∧ Decides .ne a b (!equal) ∧
      Decides .eq b a equal ∧ Decides .ne b a (!equal)) ∧
    ((Orderable a b ∧ ∃ less equal greater,
        Decides .lt a b less ∧ Decides .eq a b equal ∧ Decides .gt a b greater ∧
        Decides .le a b (less || equal) ∧ Decides .ge a b (greater || equal) ∧
        Decides .gt b a less ∧ Decides .lt b a greater ∧
        [less, equal, greater].count true = if a.isNaN || b.isNaN then 0 else 1) ∨
      (¬ Orderable a b ∧ ∀ op ∈ [CompareOp.lt, .gt, .le, .ge],
        comparison op a b = .error (unsupported op.symbol a b))) ∧
    ∀ (op : CompareOp) (s t : String),
      Decides op (.str s) (.str t)
          (op.holds (compare s.toUTF8.data.toList t.toUTF8.data.toList)) ∧
        Decides op (.str s) (.str t)
          (op.holds (compare (codePoints s.toList) (codePoints t.toList))) := by
  constructor
  · exact equality_coherent a b
  constructor
  · by_cases orderable : Orderable a b
    · exact .inl ⟨orderable, order_coherent orderable⟩
    · exact .inr ⟨orderable, fun _ => comparison_of_not_orderable orderable⟩
  · exact texts_coherent

end Value

end LessonScript
