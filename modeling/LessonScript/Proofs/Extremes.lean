import LessonScript.Proofs.CallResults
import LessonScript.Proofs.IterationItems
import Mathlib.Data.String.Basic
import Mathlib.Order.Compare

/-!
The least and the greatest of many values.

The builtins go through the items and keep the best so far.  What they keep at the end is the first
item that no item beats (`FirstUnbeaten`), because integers and texts are ranked by a linear order
(`bestOf_ranked`).

For a progression they do not go through the items, of which there may be very many, but compare its
two ends.  That gives the same as going through the items (`extremeOfProgression_eq`).
-/

namespace LessonScript

def Value.Beats (want : Ordering) (a b : Value) : Prop :=
  a.compare? b = some want

/-- No item beats the value, which stands among the items behind beaten ones only. -/
structure FirstUnbeaten (want : Ordering) (items : List Value) (v : Value) : Prop where
  unbeaten : ∀ item ∈ items, ¬ item.Beats want v
  first : ∃ front back, items = front ++ v :: back ∧
    ∀ earlier ∈ front, ∃ item ∈ items, item.Beats want earlier

namespace Builtin

section Ranked

variable {α κ : Type} [LinearOrder κ] {want : Ordering} {value : α → Value} {rank : α → κ}

/-- The values have an order, and one beats another exactly if its rank is lower. -/
def RankedBy (want : Ordering) (value : α → Value) (rank : α → κ) : Prop :=
  ∀ a b, ∃ order, (value a).compare? (value b) = some order ∧ (order = want ↔ rank a < rank b)

theorem RankedBy.beats_iff (ranked : RankedBy want value rank) (a b : α) :
    (value a).Beats want (value b) ↔ rank a < rank b := by
  obtain ⟨order, compared, wanted⟩ := ranked a b
  rw [Value.Beats, compared, Option.some.injEq]
  exact wanted

/-- What is kept at the end has the lowest rank, and all items before it have higher ones. -/
theorem bestOf_ranked (ranked : RankedBy want value rank) (best : α) (rest : List α) :
    ∃ front b back, best :: rest = front ++ b :: back ∧
      bestOf want (value best) (rest.map value) = .ok (value b) ∧
      (∀ a ∈ front, rank b < rank a) ∧ ∀ a ∈ best :: rest, rank b ≤ rank a := by
  induction rest generalizing best with
  | nil =>
      refine ⟨[], best, [], rfl, rfl, nofun, fun a member => ?_⟩
      rw [List.mem_singleton.mp member]
  | cons item rest ih =>
      obtain ⟨order, compared, wanted⟩ := ranked item best
      by_cases better : rank item < rank best
      · obtain ⟨front, b, back, split, kept, above, lowest⟩ := ih item
        have lower := lt_of_le_of_lt (lowest item (List.mem_cons_self ..)) better
        refine ⟨best :: front, b, back, congrArg (best :: ·) split, ?_, ?_, ?_⟩
        · rw [List.map_cons, bestOf, compared]
          dsimp only
          rw [if_pos (wanted.mpr better), kept]
        · exact List.forall_mem_cons.mpr ⟨lower, above⟩
        · exact List.forall_mem_cons.mpr ⟨lower.le, lowest⟩
      · obtain ⟨front, b, back, split, kept, above, lowest⟩ := ih best
        have lowestBest := lowest best (List.mem_cons_self ..)
        have kept' : bestOf want (value best) ((item :: rest).map value) = .ok (value b) := by
          rw [List.map_cons, bestOf, compared]
          dsimp only
          rw [if_neg (mt wanted.mp better), kept]
        have lowest' : ∀ a ∈ best :: item :: rest, rank b ≤ rank a := by
          intro a member
          rcases List.mem_cons.mp member with rfl | behind
          · exact lowestBest
          · rcases List.mem_cons.mp behind with rfl | behind
            · exact le_trans lowestBest (not_lt.mp better)
            · exact lowest a (List.mem_cons_of_mem _ behind)
        cases front with
        | nil =>
            cases split
            exact ⟨[], best, item :: rest, rfl, kept', nofun, lowest'⟩
        | cons first front =>
            cases split
            have lower := above best (List.mem_cons_self ..)
            refine ⟨best :: item :: front, b, back, rfl, kept', ?_, lowest'⟩
            refine List.forall_mem_cons.mpr ⟨lower, List.forall_mem_cons.mpr ⟨?_, ?_⟩⟩
            · exact lt_of_lt_of_le lower (not_lt.mp better)
            · exact fun a member => above a (List.mem_cons_of_mem _ member)

theorem extremeOf_firstUnbeaten (ranked : RankedBy want value rank) (f : Builtin) {items : List α}
    (some : items ≠ []) :
    ∃ b ∈ items, extremeOf f want (items.map value) = .ok (value b) ∧
      (∀ a ∈ items, rank b ≤ rank a) ∧ FirstUnbeaten want (items.map value) (value b) := by
  obtain ⟨best, rest, rfl⟩ := List.exists_cons_of_ne_nil some
  obtain ⟨front, b, back, split, kept, above, lowest⟩ := bestOf_ranked ranked best rest
  have member : b ∈ best :: rest := by
    rw [split]
    exact List.mem_append_right _ (List.mem_cons_self ..)
  refine ⟨b, member, kept, lowest, ?_, front.map value, back.map value, ?_, ?_⟩
  · intro item among beaten
    obtain ⟨a, inside, rfl⟩ := List.mem_map.mp among
    exact not_lt.mpr (lowest a inside) ((ranked.beats_iff a b).mp beaten)
  · rw [split, List.map_append, List.map_cons]
  · intro earlier among
    obtain ⟨a, inside, rfl⟩ := List.mem_map.mp among
    exact ⟨value b, List.mem_map_of_mem member, (ranked.beats_iff b a).mpr (above a inside)⟩

end Ranked

theorem rankedBy_int_lt : RankedBy .lt Value.int Int64.toInt := by
  intro a b
  refine ⟨compare a b, rfl, ?_⟩
  rw [Std.compare_eq_lt, Int64.lt_iff_toInt_lt]

theorem rankedBy_int_gt : RankedBy .gt Value.int fun word => OrderDual.toDual word.toInt := by
  intro a b
  refine ⟨compare a b, rfl, ?_⟩
  rw [Std.compare_eq_gt, Int64.lt_iff_toInt_lt, OrderDual.toDual_lt_toDual]

theorem rankedBy_str_lt : RankedBy .lt Value.str id := by
  intro s t
  exact ⟨compare s t, rfl, compare_lt_iff_lt⟩

theorem rankedBy_str_gt : RankedBy .gt Value.str OrderDual.toDual := by
  intro s t
  exact ⟨compare s t, rfl, compare_gt_iff_gt⟩

end Builtin

namespace Progression

/-- The last term by the closed form. -/
def last (p : Progression) : Int :=
  p.start.toInt + ((p.length : Int) - 1) * p.step.toInt

variable {p : Progression}

theorem mem_terms_iff {word : Int64} : word ∈ p.terms ↔ ∃ k < p.length, p.term k = word := by
  simp only [terms, List.mem_map, List.mem_range]

theorem start_mem_terms (some : p.length ≠ 0) : p.start ∈ p.terms :=
  mem_terms_iff.mpr ⟨0, Nat.pos_of_ne_zero some, p.term_zero⟩

theorem exists_last_term (some : p.length ≠ 0) : ∃ word ∈ p.terms, word.toInt = p.last := by
  have inside : p.length - 1 < p.length := by omega
  refine ⟨p.term (p.length - 1), mem_terms_iff.mpr ⟨_, inside, rfl⟩, ?_⟩
  rw [toInt_term inside, last, Int.natCast_sub (by omega), Int.natCast_one]

theorem terms_between {word : Int64} (member : word ∈ p.terms) :
    min p.start.toInt p.last ≤ word.toInt ∧ word.toInt ≤ max p.start.toInt p.last := by
  obtain ⟨k, inside, rfl⟩ := mem_terms_iff.mp member
  have behind : (k : Int) ≤ (p.length : Int) - 1 := by omega
  have natural := Int.natCast_nonneg k
  rw [toInt_term inside, last]
  rcases Int.le_total 0 p.step.toInt with up | down
  · have low := Int.mul_nonneg natural up
    have high := Int.mul_le_mul_of_nonneg_right behind up
    omega
  · have low := Int.mul_nonpos_of_nonneg_of_nonpos natural down
    have high := Int.mul_le_mul_of_nonpos_right behind down
    omega

end Progression

namespace Builtin

theorem extremeOfProgression_of_pick (f : Builtin) (want : Ordering) {p : Progression} {b : Int64}
    (some : p.length ≠ 0)
    (pick : (if want = .lt then Min.min p.start.toInt p.last
      else Max.max p.start.toInt p.last) = b.toInt) :
    extremeOfProgression f want p = .ok (.int b) := by
  unfold Progression.last at pick
  rw [extremeOfProgression, if_neg some]
  dsimp only
  rw [pick, checkedInt64_toInt]

/-- Comparing the two ends gives the same as going through all the items. -/
theorem extremeOfProgression_eq (f : Builtin) {want : Ordering} (wanted : want ≠ .eq)
    (p : Progression) :
    extremeOfProgression f want p = extremeOf f want (p.terms.map .int) := by
  by_cases some : p.length = 0
  · have empty : p.terms = [] := List.length_eq_zero_iff.mp (p.length_terms.trans some)
    rw [extremeOfProgression, if_pos some, empty]
    rfl
  · have start := Progression.start_mem_terms some
    obtain ⟨word, end_mem, isLast⟩ := Progression.exists_last_term some
    cases want with
    | eq => exact absurd rfl wanted
    | lt =>
        obtain ⟨b, member, kept, lowest, _⟩ :=
          extremeOf_firstUnbeaten rankedBy_int_lt f (List.ne_nil_of_mem start)
        have between := Progression.terms_between member
        have first := lowest _ start
        have second := lowest _ end_mem
        rw [kept]
        apply extremeOfProgression_of_pick f .lt some
        rw [if_pos rfl]
        omega
    | gt =>
        obtain ⟨b, member, kept, lowest, _⟩ :=
          extremeOf_firstUnbeaten rankedBy_int_gt f (List.ne_nil_of_mem start)
        have between := Progression.terms_between member
        have first := OrderDual.toDual_le_toDual.mp (lowest _ start)
        have second := OrderDual.toDual_le_toDual.mp (lowest _ end_mem)
        rw [kept]
        apply extremeOfProgression_of_pick f .gt some
        rw [if_neg (by decide)]
        omega

end Builtin

theorem Iteration.Yields.unique {i : Iteration} {items others : List Value}
    (first : i.Yields items) (second : i.Yields others) : items = others :=
  List.ext_getElem? fun count => (first count).symm.trans (second count)

namespace Builtin

/-- The two builtins give the first items that no item beats. -/
structure PickFirst (args items : List Value) : Prop where
  least : ∃ v, min.resultOf args = .ok v ∧ FirstUnbeaten .lt items v
  greatest : ∃ v, max.resultOf args = .ok v ∧ FirstUnbeaten .gt items v

theorem pickFirst_of_ranked {α κ μ : Type} [LinearOrder κ] [LinearOrder μ] {value : α → Value}
    {low : α → κ} {high : α → μ} (up : RankedBy .lt value low) (down : RankedBy .gt value high)
    {args : List Value} {items : List α} (some : items ≠ [])
    (goes : ∀ f want, extreme f want args = extremeOf f want (items.map value)) :
    PickFirst args (items.map value) := by
  obtain ⟨least, _, kept, _, unbeaten⟩ := extremeOf_firstUnbeaten up min some
  obtain ⟨greatest, _, kept', _, unbeaten'⟩ := extremeOf_firstUnbeaten down max some
  constructor
  · exact ⟨value least, (goes min .lt).trans kept, unbeaten⟩
  · exact ⟨value greatest, (goes max .gt).trans kept', unbeaten'⟩

theorem extreme_of_many (f : Builtin) (want : Ordering) {args : List Value}
    (many : 2 ≤ args.length) : extreme f want args = extremeOf f want args := by
  unfold extreme
  split
  · exact absurd many (Nat.not_succ_le_self 1)
  · exact absurd many (Nat.not_succ_le_self 1)
  · exact absurd many (Nat.not_succ_le_self 1)
  · rfl

theorem not_internal {result : Except Fault Value} (tame : Tame result) (message : String) :
    result ≠ .error (.internal message) := by
  rintro rfl
  exact tame trivial

end Builtin

open Builtin

/-- For a progression the two builtins give what going through all its items gives, which is never
an internal fault and is a complaint if there are no items.  Of several integers or texts, and of
the characters of a text, they give the first one that no other beats. -/
theorem extremes_agree :
    (∀ p items, (Iteration.ofProgression p).Yields items →
      Builtin.min.resultOf [.range p] = extremeOf .min .lt items ∧
      Builtin.max.resultOf [.range p] = extremeOf .max .gt items ∧
      (items = [] →
        Builtin.min.resultOf [.range p] =
          .error (.call (.argument "min" "arg is an empty sequence")) ∧
        Builtin.max.resultOf [.range p] =
          .error (.call (.argument "max" "arg is an empty sequence"))) ∧
      ∀ message, Builtin.min.resultOf [.range p] ≠ .error (.internal message) ∧
        Builtin.max.resultOf [.range p] ≠ .error (.internal message)) ∧
    (∀ words : List Int64, 2 ≤ words.length → PickFirst (words.map .int) (words.map .int)) ∧
    (∀ texts : List String, 2 ≤ texts.length → PickFirst (texts.map .str) (texts.map .str)) ∧
    ∀ s items, s ≠ "" → (Iteration.ofText s).Yields items → PickFirst [.str s] items := by
  refine ⟨fun p items yields => ?_, fun words many => ?_, fun texts many => ?_,
    fun s items some yields => ?_⟩
  · have least := extremeOfProgression_eq .min (show Ordering.lt ≠ .eq by decide) p
    have greatest := extremeOfProgression_eq .max (show Ordering.gt ≠ .eq by decide) p
    rw [(Iteration.ofProgression_yields p).unique yields] at least greatest
    refine ⟨least, greatest, ?_, fun message => ⟨?_, ?_⟩⟩
    · rintro rfl
      exact ⟨least, greatest⟩
    · exact not_internal (extremeOfProgression_tame .min .lt p) message
    · exact not_internal (extremeOfProgression_tame .max .gt p) message
  · have some : words ≠ [] := List.ne_nil_of_length_pos (by omega)
    rw [← List.length_map Value.int] at many
    exact pickFirst_of_ranked rankedBy_int_lt rankedBy_int_gt some
      fun f want => extreme_of_many f want many
  · have some : texts ≠ [] := List.ne_nil_of_length_pos (by omega)
    rw [← List.length_map Value.str] at many
    exact pickFirst_of_ranked rankedBy_str_lt rankedBy_str_gt some
      fun f want => extreme_of_many f want many
  · have pieces : Text.pieces s ≠ [] := by
      rwa [Text.pieces, ne_eq, List.map_eq_nil_iff, String.toList_eq_nil_iff]
    rw [← (Iteration.ofText_yields s).unique yields]
    apply pickFirst_of_ranked rankedBy_str_lt rankedBy_str_gt pieces
    intro f want
    change extremeOf f want _ = _
    rw [Text.pieces, List.map_map]
    rfl

end LessonScript
