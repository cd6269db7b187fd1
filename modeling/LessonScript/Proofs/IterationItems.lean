import LessonScript.Proofs.IntegerArithmetic

/-!
What an iteration yields.

An iteration is advanced again and again: `Iteration.answer` is what the advance behind so many
others gives, and `Iteration.Yields` says that the answers are the items of a list and then nothing
for ever.  A progression yields as many items as its closed form counts, because that form counts
the terms in front of the bound (`Progression.lt_length_iff`).  A text yields its characters, and
stands between two of them all the time.
-/

namespace LessonScript

namespace Iteration

/-- The position behind one advance; an iteration at its end stays there. -/
def onward (i : Iteration) : Iteration :=
  (i.advance?.map Prod.snd).getD i

/-- The position behind so many advances. -/
def after : Nat → Iteration → Iteration
  | 0, i => i
  | count + 1, i => after count i.onward

/-- The item that the advance behind so many others gives, if it gives one. -/
def answer (count : Nat) (i : Iteration) : Option Value :=
  (i.after count).advance?.map Prod.fst

/-- The iteration gives exactly these items, and then nothing however often it is advanced. -/
def Yields (i : Iteration) (items : List Value) : Prop :=
  ∀ count, i.answer count = items[count]?

theorem onward_of_some {i next : Iteration} {item : Value}
    (advanced : i.advance? = some (item, next)) : i.onward = next := by
  rw [onward, advanced]
  rfl

theorem onward_of_none {i : Iteration} (ended : i.advance? = none) : i.onward = i := by
  rw [onward, ended]
  rfl

theorem Yields.nil {i : Iteration} (ended : i.advance? = none) : i.Yields [] := by
  have stays (count : Nat) : i.after count = i := by
    induction count with
    | zero => rfl
    | succ count ih => rw [after, onward_of_none ended, ih]
  intro count
  rw [answer, stays, ended]
  rfl

theorem Yields.cons {i next : Iteration} {item : Value} {items : List Value}
    (advanced : i.advance? = some (item, next)) (yields : next.Yields items) :
    i.Yields (item :: items) := by
  intro count
  cases count with
  | zero =>
      rw [answer, after, advanced]
      rfl
  | succ count =>
      rw [answer, after, onward_of_some advanced]
      exact yields count

theorem Yields.exists_item_iff {i : Iteration} {items : List Value} (yields : i.Yields items) :
    (∃ count item, i.answer count = some item) ↔ items ≠ [] := by
  constructor
  · rintro ⟨count, item, answered⟩ rfl
    rw [yields count] at answered
    cases answered
  · intro some
    obtain ⟨item, rest, rfl⟩ := List.exists_cons_of_ne_nil some
    exact ⟨0, item, yields 0⟩

end Iteration

namespace Progression

/-- The number stands in front of the bound, seen in the direction of the steps. -/
def Before (p : Progression) (n : Int) : Prop :=
  if 0 < p.step.toInt then n < p.stop.toInt else p.stop.toInt < n

/-- The closed form counts the terms in front of the bound. -/
theorem lt_length_iff (p : Progression) (k : Nat) :
    k < p.length ↔ p.Before (p.start.toInt + k * p.step.toInt) := by
  have nonzero := Value.toInt_ne_zero p.step_ne_zero
  unfold length Before
  dsimp only
  by_cases up : 0 < p.step.toInt
  · have climbs : 0 ≤ k * p.step.toInt := Int.mul_nonneg (Int.natCast_nonneg k) up.le
    rw [if_pos up]
    by_cases some : p.start.toInt < p.stop.toInt
    · have count := Int.le_ediv_iff_mul_le up
        (a := (k : Int)) (b := p.stop.toInt - p.start.toInt - 1)
      rw [if_pos ⟨up, some⟩, Int.lt_toNat]
      omega
    · rw [if_neg (by omega), if_neg (by omega)]
      omega
  · have down : 0 < -p.step.toInt := by omega
    have falls : 0 ≤ k * -p.step.toInt := Int.mul_nonneg (Int.natCast_nonneg k) down.le
    have count := Int.le_ediv_iff_mul_le down
      (a := (k : Int)) (b := p.start.toInt - p.stop.toInt - 1)
    rw [Int.mul_neg] at falls count
    rw [if_neg up, if_neg (by omega)]
    by_cases some : p.stop.toInt < p.start.toInt
    · rw [if_pos ⟨by omega, some⟩, Int.lt_toNat]
      omega
    · rw [if_neg (by omega)]
      omega

theorem Before.between {p : Progression} {k : Nat}
    (before : p.Before (p.start.toInt + k * p.step.toInt)) :
    (0 ≤ k * p.step.toInt ∧ p.start.toInt + k * p.step.toInt < p.stop.toInt) ∨
      (k * p.step.toInt ≤ 0 ∧ p.stop.toInt < p.start.toInt + k * p.step.toInt) := by
  unfold Before at before
  by_cases up : 0 < p.step.toInt
  · rw [if_pos up] at before
    exact .inl ⟨Int.mul_nonneg (Int.natCast_nonneg k) up.le, before⟩
  · rw [if_neg up] at before
    exact .inr ⟨Int.mul_nonpos_of_nonneg_of_nonpos (Int.natCast_nonneg k) (Int.not_lt.mp up),
      before⟩

theorem Before.fitsWord {p : Progression} {k : Nat}
    (before : p.Before (p.start.toInt + k * p.step.toInt)) :
    FitsWord (p.start.toInt + k * p.step.toInt) := by
  have start := fitsWord_toInt p.start
  have stop := fitsWord_toInt p.stop
  have between := before.between
  unfold FitsWord at start stop ⊢
  omega

/-- The term behind so many others; it is the exact one in front of the bound. -/
def term (p : Progression) (k : Nat) : Int64 :=
  Int64.ofInt (p.start.toInt + k * p.step.toInt)

def terms (p : Progression) : List Int64 :=
  (List.range p.length).map p.term

theorem length_terms (p : Progression) : p.terms.length = p.length := by
  rw [terms, List.length_map, List.length_range]

theorem toInt_term {p : Progression} {k : Nat} (inside : k < p.length) :
    (p.term k).toInt = p.start.toInt + k * p.step.toInt := by
  have fits := ((p.lt_length_iff k).mp inside).fitsWord
  exact Int64.toInt_ofInt_of_le fits.1 fits.2

/-- A step goes to another integer, so there are no more terms than words. -/
theorem length_lt (p : Progression) : p.length < 2 ^ 64 := by
  cases count : p.length with
  | zero => decide
  | succ last =>
      have between := ((p.lt_length_iff last).mp (by omega)).between
      have start := fitsWord_toInt p.start
      have stop := fitsWord_toInt p.stop
      have apart : last ≤ (last * p.step.toInt).natAbs := by
        rw [Int.natAbs_mul, Int.natAbs_natCast]
        apply Nat.le_mul_of_pos_right
        exact Int.natAbs_pos.mpr (Value.toInt_ne_zero p.step_ne_zero)
      unfold FitsWord at start stop
      omega

/-- The progression from its second term on; where that term is no word, it is empty. -/
def rest (p : Progression) : Progression :=
  { p with start := (checkedInt64 (p.start.toInt + p.step.toInt)).getD p.stop }

theorem start_rest {p : Progression} (fits : FitsWord (p.start.toInt + p.step.toInt)) :
    p.rest.start.toInt = p.start.toInt + p.step.toInt := by
  obtain ⟨word, same, checked⟩ := checkedInt64_of_fits fits
  rw [rest, checked]
  exact same

theorem fitsWord_second {p : Progression} (some : 1 < p.length) :
    FitsWord (p.start.toInt + p.step.toInt) := by
  have fits := ((p.lt_length_iff 1).mp some).fitsWord
  rwa [Int.natCast_one, Int.one_mul] at fits

theorem length_rest (p : Progression) : p.rest.length = p.length - 1 := by
  by_cases fits : FitsWord (p.start.toInt + p.step.toInt)
  · have same (k : Nat) : k < p.rest.length ↔ k + 1 < p.length := by
      rw [lt_length_iff, lt_length_iff, start_rest fits, Int.natCast_succ, Int.add_mul,
        Int.one_mul, Int.add_assoc, Int.add_comm p.step.toInt]
      rfl
    have first := same p.rest.length
    have second := same (p.length - 1)
    omega
  · have few := mt fitsWord_second fits
    have ended : ¬ 0 < p.rest.length := by
      rw [lt_length_iff, rest, checkedInt64_of_not_fits fits]
      intro before
      have between := before.between
      dsimp only [Option.getD] at between
      omega
    omega

theorem term_zero (p : Progression) : p.term 0 = p.start := by
  rw [term, Int.natCast_zero, Int.zero_mul, Int.add_zero, Int64.ofInt_toInt]

theorem term_rest {p : Progression} (fits : FitsWord (p.start.toInt + p.step.toInt)) (k : Nat) :
    p.rest.term k = p.term (k + 1) := by
  rw [term, term, start_rest fits, Int.natCast_succ, Int.add_mul, Int.one_mul, Int.add_assoc,
    Int.add_comm p.step.toInt]
  rfl

theorem terms_eq_cons {p : Progression} (some : p.length ≠ 0) :
    p.terms = p.start :: p.rest.terms := by
  have count : p.length = p.rest.length + 1 := by
    rw [length_rest]
    omega
  have others : (List.range p.rest.length).map (p.term ∘ Nat.succ) = p.rest.terms := by
    apply List.map_congr_left
    intro k member
    have inside := List.mem_range.mp member
    exact (term_rest (fitsWord_second (by omega)) k).symm
  rw [terms, count, List.range_succ_eq_map, List.map_cons, List.map_map, term_zero, others]

end Progression

namespace Iteration

theorem advance?_ofProgression (p : Progression) :
    (ofProgression p).advance? =
      if p.length = 0 then none else some (.int p.start, ofProgression p.rest) := by
  have inside : 0 < p.length ↔
      if 0 < p.step then p.start < p.stop else p.stop < p.start := by
    rw [p.lt_length_iff, Progression.Before, Int.natCast_zero, Int.zero_mul, Int.add_zero]
    simp only [Int64.lt_iff_toInt_lt, Int64.toInt_zero]
  change (if _ then _ else _) = _
  by_cases some : p.length = 0
  · rw [if_pos some, if_neg (mt inside.mpr (by omega))]
  · rw [if_neg some, if_pos (inside.mp (by omega))]
    rfl

theorem ofProgression_yields (p : Progression) :
    (ofProgression p).Yields (p.terms.map .int) := by
  generalize count : p.length = length
  induction length generalizing p with
  | zero =>
      have empty : p.terms = [] := by
        rw [Progression.terms, count]
        rfl
      rw [empty]
      apply Yields.nil
      rw [advance?_ofProgression, if_pos count]
  | succ length ih =>
      have some : p.length ≠ 0 := by omega
      rw [Progression.terms_eq_cons some, List.map_cons]
      apply Yields.cons
      · rw [advance?_ofProgression, if_neg some]
      · apply ih
        rw [Progression.length_rest]
        omega

section Texts

variable {text : String}

/-- So many advances go past as many characters, up to the end. -/
theorem after_spelling (count : Nat) {front back : List Char} {next : text.Pos}
    (splits : next.Splits (String.ofList front) (String.ofList back)) :
    ∃ q : text.Pos, (spelling text next).after count = spelling text q ∧
      q.Splits (String.ofList (front ++ back.take count)) (String.ofList (back.drop count)) := by
  induction count generalizing front back next with
  | zero =>
      rw [List.take_zero, List.append_nil, List.drop_zero]
      exact ⟨next, rfl, splits⟩
  | succ count ih =>
      cases back with
      | nil =>
          have ended : next = text.endPos := splits.eq_endPos_iff.mpr rfl
          have stays : (spelling text next).onward = spelling text next := by
            rw [ended, onward_of_none (advance?_endPos text)]
          rw [after, stays]
          have further := ih splits
          rwa [List.take_nil, List.drop_nil] at further ⊢
      | cons c back =>
          rw [String.ofList_cons] at splits
          obtain ⟨q, behind, advanced⟩ := advance?_spelling splits
          rw [String.singleton_eq_ofList, ← String.ofList_append] at behind
          rw [after, onward_of_some advanced, List.take_succ_cons, List.drop_succ_cons,
            List.append_cons]
          exact ih behind

theorem spelling_yields {front back : List Char} {next : text.Pos}
    (splits : next.Splits (String.ofList front) (String.ofList back)) :
    (spelling text next).Yields (back.map fun c => .str (String.singleton c)) := by
  induction back generalizing front next with
  | nil =>
      have ended : next = text.endPos := splits.eq_endPos_iff.mpr rfl
      subst ended
      exact .nil (advance?_endPos text)
  | cons c back ih =>
      rw [String.ofList_cons] at splits
      obtain ⟨q, behind, advanced⟩ := advance?_spelling splits
      rw [String.singleton_eq_ofList, ← String.ofList_append] at behind
      exact .cons advanced (ih behind)

theorem splits_startPos (text : String) :
    text.startPos.Splits (String.ofList []) (String.ofList text.toList) := by
  rw [String.ofList_toList]
  exact text.splits_startPos

end Texts

end Iteration

/-- The characters of a text, each as a text of its own. -/
def Text.pieces (s : String) : List String :=
  s.toList.map String.singleton

theorem Text.join_singletons (cs : List Char) :
    String.join (cs.map String.singleton) = String.ofList cs := by
  apply String.toList_inj.mp
  rw [String.toList_join, List.flatMap_map, String.toList_ofList]
  simp only [String.toList_singleton, List.flatMap_singleton']

theorem Text.length_pieces (s : String) : (Text.pieces s).length = s.length := by
  rw [Text.pieces, List.length_map, String.length_toList]

theorem length_le_utf8ByteSize (cs : List Char) : cs.length ≤ (String.ofList cs).utf8ByteSize := by
  induction cs with
  | nil => exact Nat.le_refl 0
  | cons c cs ih =>
      have first := c.utf8Size_pos
      rw [String.ofList_cons, String.utf8ByteSize_append, String.utf8ByteSize_singleton,
        List.length_cons]
      omega

namespace Iteration

theorem ofText_yields (s : String) : (ofText s).Yields ((Text.pieces s).map .str) := by
  rw [Text.pieces, List.map_map]
  exact spelling_yields (splits_startPos s)

theorem after_ofText (s : String) (count : Nat) :
    ∃ q : s.Pos, (ofText s).after count = spelling s q ∧
      q.Splits (String.join ((Text.pieces s).take count))
        (String.join ((Text.pieces s).drop count)) := by
  rw [Text.pieces, ← List.map_take, ← List.map_drop, Text.join_singletons, Text.join_singletons]
  exact after_spelling count (splits_startPos s)

end Iteration

theorem Value.isTruthy_range_iff (p : Progression) :
    (Value.range p).isTruthy = true ↔
      ∃ count item, (Iteration.ofProgression p).answer count = some item := by
  rw [(Iteration.ofProgression_yields p).exists_item_iff, ne_eq, List.map_eq_nil_iff,
    ← List.length_eq_zero_iff, Progression.length_terms]
  exact bne_iff_ne

theorem Value.isTruthy_str_iff (s : String) :
    (Value.str s).isTruthy = true ↔
      ∃ count item, (Iteration.ofText s).answer count = some item := by
  rw [(Iteration.ofText_yields s).exists_item_iff, ne_eq, List.map_eq_nil_iff, Text.pieces,
    List.map_eq_nil_iff, String.toList_eq_nil_iff, ← String.isEmpty_iff, Bool.not_eq_true,
    isTruthy, Bool.not_eq_true']

/-- A progression yields its terms, which its length counts, and a text yields its characters, which
the builtin counts; both then yield nothing for ever.  The terms are the words in front of the bound.
A text is cut between two characters at any time.  Either is true as a condition exactly if it
yields an item. -/
theorem iterations_yield_what_is_counted :
    (∀ p : Progression,
      (Iteration.ofProgression p).Yields (p.terms.map .int) ∧
      p.terms.length = p.length ∧ p.length < 2 ^ 64 ∧
      (∀ (k : Nat) (inside : k < p.terms.length),
        p.terms[k].toInt = p.start.toInt + k * p.step.toInt ∧ p.Before p.terms[k].toInt) ∧
      Value.Exactly "len" p.length (Builtin.len.resultOf [.range p]) ∧
      ((Value.range p).isTruthy = true ↔
        ∃ count item, (Iteration.ofProgression p).answer count = some item)) ∧
    ∀ s : String, ∃ pieces : List String,
      (Iteration.ofText s).Yields (pieces.map .str) ∧
      (∀ piece ∈ pieces, piece.length = 1) ∧ String.join pieces = s ∧
      (∀ count, ∃ q : s.Pos, (Iteration.ofText s).after count = .spelling s q ∧
        q.Splits (String.join (pieces.take count)) (String.join (pieces.drop count))) ∧
      Value.Exactly "len" pieces.length (Builtin.len.resultOf [.str s]) ∧
      (s.utf8ByteSize < 2 ^ 63 → FitsWord pieces.length) ∧
      ((Value.str s).isTruthy = true ↔
        ∃ count item, (Iteration.ofText s).answer count = some item) := by
  constructor
  · intro p
    refine ⟨Iteration.ofProgression_yields p, p.length_terms, p.length_lt, fun k inside => ?_,
      Value.ofExact_exactly _ _, Value.isTruthy_range_iff p⟩
    rw [p.length_terms] at inside
    have before := (p.lt_length_iff k).mp inside
    rw [← Progression.toInt_term inside] at before
    simp only [Progression.terms, List.getElem_map, List.getElem_range]
    exact ⟨Progression.toInt_term inside, before⟩
  · intro s
    refine ⟨Text.pieces s, Iteration.ofText_yields s, fun piece member => ?_, ?_,
      Iteration.after_ofText s, ?_, fun short => ?_, Value.isTruthy_str_iff s⟩
    · obtain ⟨c, _, rfl⟩ := List.mem_map.mp member
      exact String.length_singleton
    · rw [Text.pieces, Text.join_singletons, String.ofList_toList]
    · rw [Text.length_pieces]
      exact Value.ofExact_exactly _ _
    · have fewer := length_le_utf8ByteSize s.toList
      rw [String.ofList_toList, String.length_toList] at fewer
      rw [Text.length_pieces]
      unfold FitsWord
      omega

end LessonScript
