import LessonScript.Proofs.TableEntries

/-!
Tables with maps.

A table need not be searched: a map beside it can lead from the key of an entry to its index.  The
key of a constant is the literal that it is, so constants are told apart by type and bits, and a
constant that is no literal has no key.  Each step keeps the maps in order
(`Program.KeyedTables.Follow.enter`), so looking up gives the indices that searching gives
(`Program.keyed_index`).
-/

deriving instance Hashable for LessonScript.Binary64, LessonScript.Literal

namespace LessonScript.Program

/-- A table with a map from the keys of its entries to their indices.  An entry without a key is
in no map. -/
structure KeyedTable (κ α : Type) [BEq κ] [Hashable κ] where
  entries : Array α
  indices : Std.HashMap κ Nat

/-- The tables of a program, where an entry is not searched for but looked up. -/
structure KeyedTables where
  constants : KeyedTable Literal Value
  names : KeyedTable String String

variable {p : Program} {κ α : Type} [BEq κ] [Hashable κ] {key : α → Option κ} {t : KeyedTable κ α}

def KeyedTable.add (t : KeyedTable κ α) (key : Option κ) (x : α) : KeyedTable κ α × Nat :=
  match key.bind (t.indices[·]?) with
  | some index => (t, index)
  | none =>
    let index := t.entries.size
    (⟨t.entries.push x, key.elim t.indices (t.indices.insert · index)⟩, index)

def KeyedTables.enter (t : KeyedTables) : Entry → KeyedTables × Nat
  | .constant v =>
    let (constants, index) := t.constants.add v.literal? v
    ({ t with constants }, index)
  | .name id =>
    let (names, index) := t.names.add (some id) id
    ({ t with names }, index)

def KeyedTables.afterAll (entries : List Entry) : KeyedTables :=
  entries.foldl (fun t entry => (t.enter entry).1) ⟨⟨#[], ∅⟩, ⟨#[], ∅⟩⟩

/-- The map leads from each key to the first entry that has it. -/
def KeyedTable.Leads (key : α → Option κ) (t : KeyedTable κ α) : Prop :=
  ∀ k, t.indices[k]? = t.entries.findIdx? (key · == some k)

theorem KeyedTable.Leads.empty [EquivBEq κ] [LawfulHashable κ] :
    (⟨#[], ∅⟩ : KeyedTable κ α).Leads key := by
  intro k
  rw [Array.findIdx?_empty, Std.HashMap.getElem?_empty]

theorem KeyedTable.add_of_known {k : Option κ} {x : α} {index : Nat}
    (found : k.bind (t.indices[·]?) = some index) : t.add k x = (t, index) := by
  unfold KeyedTable.add
  rw [found]

theorem KeyedTable.add_of_unknown {k : Option κ} {x : α}
    (found : k.bind (t.indices[·]?) = none) :
    t.add k x = (⟨t.entries.push x, k.elim t.indices (t.indices.insert · t.entries.size)⟩,
      t.entries.size) := by
  unfold KeyedTable.add
  rw [found]

theorem KeyedTable.Leads.add [LawfulBEq κ] (leads : t.Leads key) (x : α) :
    (t.add (key x) x).1.Leads key := by
  cases found : (key x).bind (t.indices[·]?) with
  | some index =>
      rw [add_of_known found]
      exact leads
  | none =>
      intro k
      rw [add_of_unknown found, Array.findIdx?_push, ← leads k]
      cases known : key x with
      | none => exact Option.or_none.symm
      | some k' =>
          -- The key was not in the map, so the new entry is the first one that has it.
          rw [known] at found
          rw [Option.elim_some, Std.HashMap.getElem?_insert]
          by_cases same : k' = k
          · rw [same] at found ⊢
            rw [show t.indices[k]? = none from found, if_pos (beq_self_eq_true k),
              if_pos (beq_self_eq_true (some k))]
            rfl
          · have other : ¬ (some k' == some k) = true := by simpa using same
            rw [if_neg (by simpa using same), if_neg other, Option.or_none]

/-- The keyed tables hold what the tables of the program hold, and their maps are in order. -/
structure KeyedTables.Follow (t : KeyedTables) (p : Program) : Prop where
  constants : t.constants.entries = p.constants
  names : t.names.entries = p.names
  literals : t.constants.Leads Value.literal?
  ids : t.names.Leads some

theorem KeyedTables.Follow.constant_index {t : KeyedTables} (follow : t.Follow p) (v : Value) :
    v.literal?.bind (t.constants.indices[·]?) =
      if v.literal?.isSome then p.constants.findIdx? (· == v) else none := by
  cases known : v.literal? with
  | none => rfl
  | some l =>
      have same (w : Value) : (w.literal? == some l) = (w == v) := by
        rw [Bool.eq_iff_iff, beq_iff_eq, beq_iff_eq, Value.literal?_eq_some_iff,
          Value.literal?_eq_some_iff.mp known]
      rw [Option.bind_some, follow.literals l, follow.constants, funext same]
      rfl

theorem KeyedTables.Follow.enter {t : KeyedTables} (follow : t.Follow p) (e : Entry) :
    (t.enter e).1.Follow (p.enter e).1 ∧ (t.enter e).2 = (p.enter e).2 := by
  cases e with
  | constant v =>
      have leads := follow.literals.add v
      have searched := follow.constant_index v
      unfold KeyedTables.enter Program.enter addConstant
      dsimp only
      cases found : v.literal?.bind (t.constants.indices[·]?) with
      | some index =>
          rw [KeyedTable.add_of_known found, ← searched, found]
          exact ⟨follow, rfl⟩
      | none =>
          rw [KeyedTable.add_of_unknown found] at leads ⊢
          rw [← searched, found, ← follow.constants]
          exact ⟨⟨rfl, follow.names, leads, follow.ids⟩, rfl⟩
  | name id =>
      have leads := follow.ids.add id
      have searched : (some id).bind (t.names.indices[·]?) = p.names.findIdx? (· == id) := by
        rw [← follow.names]
        exact follow.ids id
      unfold KeyedTables.enter Program.enter addName
      dsimp only
      cases found : (some id).bind (t.names.indices[·]?) with
      | some index =>
          rw [KeyedTable.add_of_known found, ← searched, found]
          exact ⟨follow, rfl⟩
      | none =>
          rw [KeyedTable.add_of_unknown found] at leads ⊢
          rw [← searched, found, ← follow.names]
          exact ⟨⟨follow.constants, rfl, follow.literals, leads⟩, rfl⟩

theorem KeyedTables.afterAll_follow (entries : List Entry) :
    (KeyedTables.afterAll entries).Follow (Program.afterAll entries) := by
  induction entries using List.reverseRecOn with
  | nil => exact ⟨rfl, rfl, .empty, .empty⟩
  | append_singleton before e ih =>
      rw [afterAll_concat, KeyedTables.afterAll, List.foldl_concat]
      exact (ih.enter e).1

/-- Entries that are looked up through maps are found where they are found by search. -/
theorem keyed_index (before : List Entry) (e : Entry) :
    ((KeyedTables.afterAll before).enter e).2 = indexOf before e :=
  ((KeyedTables.afterAll_follow before).enter e).2

end LessonScript.Program
