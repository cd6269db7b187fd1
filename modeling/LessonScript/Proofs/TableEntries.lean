import LessonScript.Proofs.Relisting

/-!
Entering constants and names.

An entry that is entered again is found, if it can be found at all, and otherwise it is put behind
the others, so no entry ever moves and none that can be found stands twice (`Program.Distinct`).
Hence the index of an entry is good for all later calls, and two calls return the same index
exactly for the same entry (`Program.indexOf_eq_iff`).
-/

namespace LessonScript.Program

/-- What is entered into the tables of a program. -/
inductive Entry where
  | constant (v : Value)
  | name (id : String)

namespace Entry

def isShared : Entry → Bool
  | constant v => v.literal?.isSome
  | name _ => true

def Beside : Entry → Entry → Prop
  | constant _, constant _ => True
  | name _, name _ => True
  | _, _ => False

end Entry

def enter (p : Program) : Entry → Program × Nat
  | .constant v => p.addConstant v
  | .name id => p.addName id

/-- The table of the entry holds it at this index. -/
def HasEntry (p : Program) (index : Nat) : Entry → Prop
  | .constant v => p.constant? index = .ok v
  | .name id => p.name? index = .ok id

/-- The program after these calls, the first of them on an empty program. -/
def afterAll (entries : List Entry) : Program :=
  entries.foldl (fun p entry => (p.enter entry).1) .empty

/-- The index that the call for an entry returns behind other calls. -/
def indexOf (before : List Entry) (entry : Entry) : Nat :=
  ((afterAll before).enter entry).2

theorem afterAll_concat (before : List Entry) (entry : Entry) :
    afterAll (before ++ [entry]) = ((afterAll before).enter entry).1 := by
  rw [afterAll, List.foldl_concat]
  rfl

variable {p q : Program} {e e' : Entry} {i j : Nat}

theorem constant?_eq_ok_iff {v : Value} : p.constant? i = .ok v ↔ p.constants[i]? = some v := by
  unfold constant?
  cases p.constants[i]? <;> simp

theorem name?_eq_ok_iff {id : String} : p.name? i = .ok id ↔ p.names[i]? = some id := by
  unfold name?
  cases p.names[i]? <;> simp

theorem HasEntry.mono (held : p.HasEntry i e) (within : p.TablesWithin q) : q.HasEntry i e := by
  cases e with
  | constant v => exact constant?_eq_ok_iff.mpr (within.constants (constant?_eq_ok_iff.mp held))
  | name id => exact name?_eq_ok_iff.mpr (within.names (name?_eq_ok_iff.mp held))

theorem HasEntry.unique (held : p.HasEntry i e) (held' : p.HasEntry i e') (beside : e.Beside e') :
    e = e' := by
  cases e with
  | constant v =>
      cases e' with
      | constant w => exact congrArg _ (Except.ok.inj (Eq.trans (Eq.symm held) held'))
      | name => cases beside
  | name id =>
      cases e' with
      | constant => cases beside
      | name id' => exact congrArg _ (Except.ok.inj (Eq.trans (Eq.symm held) held'))

theorem enter_spec (p : Program) (e : Entry) :
    p.TablesWithin (p.enter e).1 ∧ (p.enter e).1.HasEntry (p.enter e).2 e := by
  cases e with
  | constant v =>
      have added := p.addConstant_spec v
      exact ⟨added.1, constant?_eq_ok_iff.mpr added.2⟩
  | name id =>
      have added := p.addName_spec id
      exact ⟨added.1, name?_eq_ok_iff.mpr added.2⟩

/-- What becomes of a constant: it is found, or it is put behind the others, and then it was not
there or is none that could be found. -/
theorem addConstant_cases (p : Program) (v : Value) :
    (p.addConstant v).1 = p ∧ v.literal?.isSome = true ∨
      p.addConstant v = ({ p with constants := p.constants.push v }, p.constants.size) ∧
        (v.literal?.isSome = true → v ∉ p.constants) := by
  unfold addConstant
  cases v.literal?.isSome with
  | false => exact .inr ⟨rfl, nofun⟩
  | true =>
      dsimp only [if_true]
      cases found : p.constants.findIdx? (· == v) with
      | some index => exact .inl ⟨rfl, rfl⟩
      | none =>
          refine .inr ⟨rfl, fun _ member => ?_⟩
          have other := Array.findIdx?_eq_none_iff.mp found v member
          exact ne_of_beq_false other rfl

theorem addName_cases (p : Program) (id : String) :
    (p.addName id).1 = p ∨
      p.addName id = ({ p with names := p.names.push id }, p.names.size) ∧ id ∉ p.names := by
  unfold addName
  cases found : p.names.findIdx? (· == id) with
  | some index => exact .inl rfl
  | none =>
      refine .inr ⟨rfl, fun member => ?_⟩
      have other := Array.findIdx?_eq_none_iff.mp found id member
      exact ne_of_beq_false other rfl

def Once {α : Type} (shared : α → Bool) (xs : Array α) : Prop :=
  ∀ (x : α) (i j : Nat), shared x = true → xs[i]? = some x → xs[j]? = some x → i = j

theorem Once.push {α : Type} {shared : α → Bool} {xs : Array α} (once : Once shared xs) {x : α}
    (absent : shared x = true → x ∉ xs) : Once shared (xs.push x) := by
  intro y i j sharedY first second
  have new {k : Nat} (entry : (xs.push x)[k]? = some y) :
      k = xs.size ∧ x = y ∨ xs[k]? = some y := by
    rw [Array.getElem?_push] at entry
    split at entry
    · rename_i last
      exact .inl ⟨last, Option.some.inj entry⟩
    · exact .inr entry
  have old {k : Nat} (same : x = y) (entry : xs[k]? = some y) : False := by
    subst same
    exact absent sharedY (Array.mem_of_getElem? entry)
  cases new first with
  | inl last =>
      cases new second with
      | inl last' => rw [last.1, last'.1]
      | inr earlier => exact (old last.2 earlier).elim
  | inr earlier =>
      cases new second with
      | inl last' => exact (old last'.2 earlier).elim
      | inr earlier' => exact once y i j sharedY earlier earlier'

structure Distinct (p : Program) : Prop where
  constants : Once (·.literal?.isSome) p.constants
  names : Once (fun _ => true) p.names

theorem Distinct.index_eq (distinct : p.Distinct) (shared : e.isShared = true)
    (held : p.HasEntry i e) (held' : p.HasEntry j e) : i = j := by
  cases e with
  | constant v =>
      exact distinct.constants v i j shared (constant?_eq_ok_iff.mp held)
        (constant?_eq_ok_iff.mp held')
  | name id =>
      exact distinct.names id i j shared (name?_eq_ok_iff.mp held) (name?_eq_ok_iff.mp held')

theorem distinct_empty : Distinct empty := by
  constructor
  · intro v i j _ entry
    cases entry
  · intro id i j _ entry
    cases entry

theorem Distinct.enter (distinct : p.Distinct) (e : Entry) : (p.enter e).1.Distinct := by
  cases e with
  | constant v =>
      change (p.addConstant v).1.Distinct
      cases p.addConstant_cases v with
      | inl found =>
          rw [found.1]
          exact distinct
      | inr added =>
          rw [added.1]
          exact ⟨distinct.constants.push added.2, distinct.names⟩
  | name id =>
      change (p.addName id).1.Distinct
      cases p.addName_cases id with
      | inl found =>
          rw [found]
          exact distinct
      | inr added =>
          rw [added.1]
          exact ⟨distinct.constants, distinct.names.push fun _ => added.2⟩

theorem not_hasEntry_of_literal?_eq_none (p : Program) {v : Value} (other : v.literal? = none)
    (w : Value) : ¬ p.HasEntry (p.enter (.constant v)).2 (.constant w) := by
  intro held
  have entry := constant?_eq_ok_iff.mp held
  cases p.addConstant_cases v with
  | inl found =>
      rw [other] at found
      cases found.2
  | inr added =>
      rw [enter, added.1, Array.getElem?_eq_none (Nat.le_refl _)] at entry
      cases entry

/-- An entry that is there is found, and an entry that is never found gets a place of its own. -/
theorem enter_index (distinct : p.Distinct) (held : p.HasEntry i e) (beside : e.Beside e') :
    (p.enter e').2 = i ↔ e = e' ∧ e'.isShared = true := by
  have spec := p.enter_spec e'
  constructor
  · intro index
    have same := (held.mono spec.1).unique (index ▸ spec.2) beside
    refine ⟨same, ?_⟩
    -- Were the entry not shared, it would have got a place that holds nothing before.
    cases e' with
    | name => rfl
    | constant v =>
        rw [same, ← index] at held
        cases other : v.literal? with
        | some l =>
            rw [Entry.isShared, other]
            rfl
        | none => exact absurd held (not_hasEntry_of_literal?_eq_none p other v)
  · intro known
    rw [known.1] at held
    exact (distinct.enter e').index_eq known.2 spec.2 (held.mono spec.1)

theorem afterAll_distinct (entries : List Entry) : (afterAll entries).Distinct := by
  induction entries using List.reverseRecOn with
  | nil => exact distinct_empty
  | append_singleton before e ih =>
      rw [afterAll_concat]
      exact ih.enter e

theorem afterAll_within (before after : List Entry) :
    (afterAll before).TablesWithin (afterAll (before ++ after)) := by
  induction after using List.reverseRecOn with
  | nil =>
      rw [List.append_nil]
      exact .of_eq rfl rfl
  | append_singleton between e ih =>
      rw [← List.append_assoc, afterAll_concat]
      exact ih.trans (enter_spec _ e).1

theorem indexOf_holds (before : List Entry) (e : Entry) (after : List Entry) :
    (afterAll (before ++ e :: after)).HasEntry (indexOf before e) e := by
  have atOnce := (enter_spec (afterAll before) e).2
  rw [← afterAll_concat] at atOnce
  have later := afterAll_within (before ++ [e]) after
  rw [List.append_assoc, List.singleton_append] at later
  exact atOnce.mono later

theorem indexOf_eq_iff {before between : List Entry} (beside : e.Beside e') :
    indexOf (before ++ e :: between) e' = indexOf before e ↔ e = e' ∧ e'.isShared = true :=
  enter_index (afterAll_distinct _) (indexOf_holds before e between) beside

end LessonScript.Program
