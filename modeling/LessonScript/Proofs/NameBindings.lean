import Mathlib.Data.Finset.Card
import Mathlib.Data.List.Sort
import LessonScript.Proofs.RunSteps
import LessonScript.Proofs.TextBytes
import LessonScript.Proofs.ValueInvariants

/-!
The bindings that stores leave.

Storing keeps the bindings in the order of their names (`Locals.Ordered.store`), and it changes what
is found under the name that is stored and nothing else (`Locals.find?_store`).  Bindings in order
are told by what is found in them (`Locals.Ordered.ext`), so stores can be exchanged unless they go
to the same name.  After any stores each name is bound to the value that was stored last, and a name
that was never stored is left to the builtins (`Locals.storeAll_last_wins`).

An instruction stores one value at most, so the bindings of every run are those of stores in turn
(`Program.run_storeAll`).
-/

namespace LessonScript

/-- The last of the stores to the name stores the value. -/
def LastStored (stores : List (String × Value)) (name : String) (v : Value) : Prop :=
  ∃ before after, stores = before ++ (name, v) :: after ∧ name ∉ after.map Prod.fst

/-- What a name stands for after the stores. -/
inductive Resolves (builtins : BuiltinSet) (stores : List (String × Value)) (name : String) :
    Except Fault Value → Prop
  | stored {v : Value} (last : LastStored stores name v) :
      Resolves builtins stores name (.ok v)
  | builtin {f : Builtin} (unstored : name ∉ stores.map Prod.fst) (named : name = f.name)
      (enabled : builtins.contains f = true) :
      Resolves builtins stores name (.ok (.builtin f))
  | undefined (unstored : name ∉ stores.map Prod.fst)
      (disabled : ∀ f : Builtin, name = f.name → builtins.contains f = false) :
      Resolves builtins stores name (.error (.undefinedName name))

namespace Locals

variable {locals locals' : Locals} {stores : List (String × Value)} {name : String} {v : Value}

/-- The stores in turn, from the bindings on. -/
def storeAll (locals : Locals) (stores : List (String × Value)) : Locals :=
  stores.foldl (fun locals store => locals.store store.1 store.2) locals

def Ordered (locals : Locals) : Prop :=
  locals.Pairwise (·.1 < ·.1)

/-- The bindings list what was stored: each name once, in the order of the bytes of the names, and
with the value that was stored last. -/
structure Records (locals : Locals) (stores : List (String × Value)) : Prop where
  names : ∀ name, name ∈ locals.map Prod.fst ↔ name ∈ stores.map Prod.fst
  last : ∀ name v, (name, v) ∈ locals ↔ LastStored stores name v
  increasing : locals.Pairwise fun a b =>
    compare a.1.toUTF8.data.toList b.1.toUTF8.data.toList = .lt
  size : locals.length = (stores.map Prod.fst).toFinset.card

theorem find?_cons (other : String) (w : Value) (rest : Locals) (name : String) :
    find? ((other, w) :: rest) name = if name = other then some w else rest.find? name := by
  unfold find?
  rw [List.lookup_cons]
  by_cases same : name = other
  · rw [if_pos same, beq_iff_eq.mpr same]
  · rw [if_neg same, beq_eq_false_iff_ne.mpr same]

theorem find?_store (locals : Locals) (name : String) (v : Value) (other : String) :
    (locals.store name v).find? other = if other = name then some v else locals.find? other := by
  induction locals with
  | nil => exact find?_cons name v [] other
  | cons first rest ih =>
      obtain ⟨id, w⟩ := first
      unfold store
      split
      · rename_i same
        subst same
        rw [find?_cons, find?_cons]
        split <;> rfl
      · split
        · exact find?_cons name v _ other
        · rename_i distinct _
          rw [find?_cons, find?_cons, ih]
          by_cases atFirst : other = id
          · rw [if_pos atFirst, if_pos atFirst, if_neg (atFirst ▸ Ne.symm distinct)]
          · rw [if_neg atFirst, if_neg atFirst]

theorem Ordered.store (ordered : locals.Ordered) (name : String) (v : Value) :
    (locals.store name v).Ordered := by
  induction locals with
  | nil => exact List.pairwise_singleton _ _
  | cons first rest ih =>
      obtain ⟨other, w⟩ := first
      obtain ⟨below, orderedRest⟩ := List.pairwise_cons.mp ordered
      unfold Locals.store
      split
      · rename_i same
        subst same
        exact List.pairwise_cons.mpr ⟨below, orderedRest⟩
      · split
        · rename_i lower
          refine List.pairwise_cons.mpr ⟨List.forall_mem_cons.mpr ⟨lower, ?_⟩, ordered⟩
          intro entry member
          exact lower.trans (below entry member)
        · rename_i distinct notLower
          have higher : other < name := lt_of_le_of_ne (not_lt.mp notLower) (Ne.symm distinct)
          refine List.pairwise_cons.mpr ⟨?_, ih orderedRest⟩
          intro entry member
          cases mem_store member with
          | inl same => exact same ▸ higher
          | inr inRest => exact below entry inRest

theorem Ordered.nodup (ordered : locals.Ordered) : (locals.map Prod.fst).Nodup :=
  List.pairwise_map.mpr (ordered.imp ne_of_lt)

theorem notMem_names_iff {entries : List (String × Value)} :
    name ∉ entries.map Prod.fst ↔ ∀ entry ∈ entries, (name != entry.1) = true := by
  simp only [List.mem_map, not_exists, not_and, bne_iff_ne, ne_comm, ne_eq]

theorem find?_eq_none_iff : locals.find? name = none ↔ name ∉ locals.map Prod.fst :=
  List.lookup_eq_none_iff.trans notMem_names_iff.symm

theorem Ordered.find?_eq_some_iff (ordered : locals.Ordered) :
    locals.find? name = some v ↔ (name, v) ∈ locals := by
  induction locals with
  | nil => simp [find?]
  | cons first rest ih =>
      obtain ⟨other, w⟩ := first
      obtain ⟨below, orderedRest⟩ := List.pairwise_cons.mp ordered
      rw [find?_cons, List.mem_cons, Prod.mk.injEq]
      by_cases same : name = other
      · subst same
        have notBelow : (name, v) ∉ rest := fun member => lt_irrefl name (below _ member)
        rw [if_pos rfl, Option.some.injEq, or_iff_left notBelow, eq_comm, and_iff_right rfl]
      · rw [if_neg same, ih orderedRest, or_iff_right (fun both => same both.1)]

theorem Ordered.ext (ordered : locals.Ordered) (ordered' : locals'.Ordered)
    (same : ∀ name, locals.find? name = locals'.find? name) : locals = locals' := by
  have distinct : locals.Nodup := ordered.nodup.of_map
  have distinct' : locals'.Nodup := ordered'.nodup.of_map
  have members (entry : String × Value) : entry ∈ locals ↔ entry ∈ locals' := by
    obtain ⟨name, v⟩ := entry
    rw [← ordered.find?_eq_some_iff, ← ordered'.find?_eq_some_iff, same]
  exact ((List.perm_ext_iff_of_nodup distinct distinct').mpr members).eq_of_pairwise
    (fun a b _ _ lower higher => absurd higher lower.asymm) ordered ordered'

/-- Stores to different names can be exchanged, and of two stores to one name only the later
counts. -/
theorem Ordered.store_store (ordered : locals.Ordered) (name other : String) (v w : Value) :
    (locals.store name v).store other w =
      if other = name then locals.store name w else (locals.store other w).store name v := by
  split
  · rename_i same
    subst same
    refine ((ordered.store other v).store other w).ext (ordered.store other w) fun id => ?_
    rw [find?_store, find?_store, find?_store]
    split <;> rfl
  · rename_i distinct
    refine ((ordered.store name v).store other w).ext ((ordered.store other w).store name v)
      fun id => ?_
    rw [find?_store, find?_store, find?_store, find?_store]
    by_cases atOther : id = other
    · rw [if_pos atOther, if_neg (atOther ▸ distinct), if_pos atOther]
    · rw [if_neg atOther, if_neg atOther]

theorem load?_store (locals : Locals) (builtins : BuiltinSet) (name : String) (v : Value)
    (other : String) :
    (locals.store name v).load? builtins other =
      if other = name then .ok v else locals.load? builtins other := by
  unfold load?
  rw [find?_store]
  by_cases same : other = name
  · rw [if_pos same, if_pos same]
  · rw [if_neg same, if_neg same]

theorem storeAll_concat (locals : Locals) (stores : List (String × Value)) (name : String)
    (v : Value) : locals.storeAll (stores ++ [(name, v)]) = (locals.storeAll stores).store name v :=
  List.foldl_concat _ _ _ _

theorem storeAll_append (locals : Locals) (stores more : List (String × Value)) :
    locals.storeAll (stores ++ more) = (locals.storeAll stores).storeAll more :=
  List.foldl_append

theorem Ordered.storeAll (ordered : locals.Ordered) (stores : List (String × Value)) :
    (locals.storeAll stores).Ordered := by
  induction stores using List.reverseRecOn with
  | nil => exact ordered
  | append_singleton before store ih =>
      rw [storeAll_concat]
      exact ih.store store.1 store.2

/-- What is found is what a search through the stores finds that begins with the latest. -/
theorem find?_storeAll (stores : List (String × Value)) (name : String) :
    (storeAll [] stores).find? name = stores.reverse.lookup name := by
  induction stores using List.reverseRecOn with
  | nil => rfl
  | append_singleton before store ih =>
      rw [storeAll_concat, find?_store, ih, List.reverse_concat]
      exact (find?_cons store.1 store.2 before.reverse name).symm

theorem lastStored_iff : LastStored stores name v ↔ stores.reverse.lookup name = some v := by
  rw [List.lookup_eq_some_iff]
  constructor
  · rintro ⟨before, after, rfl, others⟩
    refine ⟨after.reverse, before.reverse, by simp, notMem_names_iff.mp ?_⟩
    rwa [List.map_reverse, List.mem_reverse]
  · rintro ⟨after, before, turned, others⟩
    refine ⟨before.reverse, after.reverse, ?_, ?_⟩
    · rw [← List.reverse_reverse stores, turned]
      simp
    · rw [List.map_reverse, List.mem_reverse]
      exact notMem_names_iff.mpr others

theorem find?_storeAll_eq_some_iff :
    (storeAll [] stores).find? name = some v ↔ LastStored stores name v := by
  rw [find?_storeAll, lastStored_iff]

theorem find?_storeAll_eq_none_iff :
    (storeAll [] stores).find? name = none ↔ name ∉ stores.map Prod.fst := by
  rw [find?_storeAll, ← find?, find?_eq_none_iff, List.map_reverse, List.mem_reverse]

theorem load?_storeAll_iff (builtins : BuiltinSet) (stores : List (String × Value)) (name : String)
    (result : Except Fault Value) :
    (storeAll [] stores).load? builtins name = result ↔ Resolves builtins stores name result := by
  constructor
  · rintro rfl
    unfold load?
    split
    · rename_i v found
      exact .stored (find?_storeAll_eq_some_iff.mp found)
    · rename_i missing
      have unstored := find?_storeAll_eq_none_iff.mp missing
      split
      · rename_i f known
        obtain ⟨named, enabled⟩ := BuiltinSet.lookup?_eq_some_iff.mp known
        exact .builtin unstored named enabled
      · rename_i unknown
        refine .undefined unstored fun f named => ?_
        by_contra enabled
        have known := BuiltinSet.lookup?_eq_some_iff.mpr ⟨named, Bool.of_not_eq_false enabled⟩
        rw [known] at unknown
        cases unknown
  · intro resolves
    unfold load?
    cases resolves with
    | stored last => rw [find?_storeAll_eq_some_iff.mpr last]
    | builtin unstored named enabled =>
        rw [find?_storeAll_eq_none_iff.mpr unstored,
          BuiltinSet.lookup?_eq_some_iff.mpr ⟨named, enabled⟩]
    | undefined unstored disabled =>
        rw [find?_storeAll_eq_none_iff.mpr unstored]
        have unknown : builtins.lookup? name = none := by
          refine Option.eq_none_iff_forall_ne_some.mpr fun f known => ?_
          obtain ⟨named, enabled⟩ := BuiltinSet.lookup?_eq_some_iff.mp known
          exact absurd enabled (Bool.eq_false_iff.mp (disabled f named))
        rw [unknown]

theorem storeAll_ordered (stores : List (String × Value)) : (storeAll [] stores).Ordered :=
  Ordered.storeAll List.Pairwise.nil stores

theorem mem_names_iff (stores : List (String × Value)) (name : String) :
    name ∈ (storeAll [] stores).map Prod.fst ↔ name ∈ stores.map Prod.fst := by
  rw [← not_iff_not, ← find?_eq_none_iff, find?_storeAll_eq_none_iff]

theorem storeAll_records (stores : List (String × Value)) : (storeAll [] stores).Records stores := by
  have ordered := storeAll_ordered stores
  refine ⟨mem_names_iff stores, ?_, ?_, ?_⟩
  · intro name v
    rw [← ordered.find?_eq_some_iff, find?_storeAll_eq_some_iff]
  · refine ordered.imp fun lower => ?_
    rw [compare_toUTF8]
    exact compare_lt_iff_lt.mpr lower
  · rw [← List.length_map Prod.fst, ← List.toFinset_card_of_nodup ordered.nodup]
    congr 1
    ext name
    rw [List.mem_toFinset, List.mem_toFinset, mem_names_iff]

/-- After any stores, a name stands for the value that was stored to it last, otherwise for the
builtin of that name if it is enabled, and otherwise for nothing; the bindings list what was stored.
A further store changes what its own name stands for and no other, and two further stores can be
exchanged unless they go to the same name. -/
theorem storeAll_last_wins (builtins : BuiltinSet) (stores : List (String × Value)) :
    let locals := storeAll [] stores
    (∀ name result,
        locals.load? builtins name = result ↔ Resolves builtins stores name result) ∧
      locals.Records stores ∧
      (∀ name v other, (locals.store name v).load? builtins other =
        if other = name then .ok v else locals.load? builtins other) ∧
      ∀ name v other w, (locals.store name v).store other w =
        if other = name then locals.store name w else (locals.store other w).store name v := by
  intro locals
  constructor
  · exact load?_storeAll_iff builtins stores
  constructor
  · exact storeAll_records stores
  constructor
  · exact locals.load?_store builtins
  · intro name v other w
    exact (storeAll_ordered stores).store_store name other v w

/-- Bytes do not order as units of 16 bits do: there the first name would come last. -/
example : storeAll [] [("\uffda", .int 1), ("𝐀", .int 2), ("\uffda", .bool true)] =
    [("\uffda", .bool true), ("𝐀", .int 2)] := by
  decide

end Locals

section Runs

variable {σ : Type} {p : Program} {builtins : BuiltinSet} {host : Host σ} {m : Machine}

/-- The bindings that an instruction leaves. -/
def Machine.Flow.locals : Machine.Flow → Locals
  | .goOn m | .finish _ m => m.locals

def Machine.StoresOnce (m : Machine) (locals : Locals) : Prop :=
  ∃ stores, stores.length ≤ 1 ∧ locals = m.locals.storeAll stores

theorem Machine.StoresOnce.of_eq {locals : Locals} (same : locals = m.locals) :
    m.StoresOnce locals :=
  ⟨[], Nat.zero_le 1, same⟩

theorem Machine.StoresOnce.store (m : Machine) (name : String) (v : Value) :
    m.StoresOnce (m.locals.store name v) :=
  ⟨[(name, v)], Nat.le_refl 1, rfl⟩

theorem Yields.sameLocals {x : Except Fault Machine}
    (kept : Yields (fun after => after.locals = m.locals) x) :
    Yields (fun flow => m.StoresOnce flow.locals)
      (x >>= fun after => .ok (Machine.Flow.goOn after)) :=
  kept.bind fun _ same => .ok (.of_eq same)

namespace Machine

theorem push?_locals (m : Machine) (v : Value) :
    Yields (fun after => after.locals = m.locals) (m.push? v) :=
  .behind fun _ => .ok rfl

theorem jump?_locals (m : Machine) (target : Nat) :
    Yields (fun after => after.locals = m.locals) (m.jump? p target) := by
  unfold jump?
  split
  · exact .ok rfl
  · exact .error _

theorem binary?_locals (m : Machine) (opcode : String) (f : Value → Value → Except Fault Value) :
    Yields (fun after => after.locals = m.locals) (m.binary? opcode f) := by
  refine .behind fun b => .behind fun a => .behind fun v => ?_
  exact push?_locals { m with stack := a.2 } v

theorem unary?_locals (m : Machine) (opcode : String) (f : Value → Except Fault Value) :
    Yields (fun after => after.locals = m.locals) (m.unary? opcode f) := by
  refine .behind fun a => .behind fun v => ?_
  exact push?_locals { m with stack := a.2 } v

theorem forIter?_locals (m : Machine) (opcode : String) (target : Nat) :
    Yields (fun after => after.locals = m.locals) (m.forIter? p opcode target) := by
  refine .behind fun v => ?_
  split
  · split
    · refine .behind fun stack => ?_
      exact push?_locals { m with stack := stack } _
    · refine .behind fun popped => ?_
      exact jump?_locals { m with stack := popped.2 } target
  · exact .error _

theorem perform?_storesOnce (m : Machine) (op : Opcode) :
    Yields (fun flow => m.StoresOnce flow.locals) (m.perform? p builtins op) := by
  cases op with
  | loadConst index => exact .behind fun v => .sameLocals (m.push?_locals v)
  | loadName index | loadFast index =>
      exact .behind fun id => .behind fun v => .sameLocals (m.push?_locals v)
  | storeName index | storeFast index =>
      refine .behind fun popped => .behind fun id => ?_
      exact .ok (.store m id popped.1)
  | arith op => exact .sameLocals (m.binary?_locals _ _)
  | compare op => exact .sameLocals (m.binary?_locals _ _)
  | negate => exact .sameLocals (m.unary?_locals _ _)
  | complement => exact .sameLocals (m.unary?_locals _ _)
  | call count => exact .ok (.of_eq rfl)
  | popTop => exact .behind fun popped => .ok (.of_eq rfl)
  | returnValue => exact .behind fun popped => .ok (.of_eq rfl)
  | jump target => exact .sameLocals (m.jump?_locals target)
  | popJumpIf truth target =>
      refine .behind fun popped => ?_
      dsimp only
      split
      · exact .sameLocals (jump?_locals { m with stack := popped.2 } target)
      · exact .ok (.of_eq rfl)
  | jumpIfOrPop truth target =>
      refine .behind fun v => ?_
      split
      · exact .sameLocals (m.jump?_locals target)
      · exact .behind fun popped => .ok (.of_eq rfl)
  | getIter =>
      refine .behind fun popped => .behind fun i => ?_
      exact .sameLocals (push?_locals { m with stack := popped.2 } (.iter i))
  | forIter target => exact .sameLocals (m.forIter?_locals _ target)
  | unknown => exact .error _

theorem performCall_storesOnce (m : Machine) (world : σ) (opcode : String) (count : Nat) :
    Yields (fun flow => m.StoresOnce flow.locals) (m.performCall host world opcode count).1 := by
  have operands : Yields (fun taken => taken.2.2.locals = m.locals)
      (m.callOperands? opcode count) := .behind fun _ => .behind fun _ => .ok rfl
  unfold performCall
  split
  · exact .error _
  · rename_i f args rest taken
    have kept : rest.locals = m.locals := operands _ taken
    refine .behind fun v => .sameLocals ?_
    exact kept ▸ rest.push?_locals v
  · exact .error _

theorem dispatch_storesOnce (m : Machine) (world : σ) (op : Opcode) :
    Yields (fun flow => m.StoresOnce flow.locals) (dispatch p builtins host m world op).1 := by
  unfold dispatch
  split
  · exact m.performCall_storesOnce world _ _
  · exact m.perform?_storesOnce _

end Machine

namespace Program

theorem stateAfter_storeAll {n : Nat} {m last : Machine} {world before : σ}
    (reached : p.stateAfter builtins host n m world = some (last, before)) :
    ∃ stores, stores.length ≤ n ∧ last.locals = m.locals.storeAll stores := by
  induction n generalizing m world with
  | zero =>
      cases reached
      exact ⟨[], Nat.le_refl 0, rfl⟩
  | succ n ih =>
      obtain ⟨instruction, after, behind, _, stepped, rest⟩ := exists_of_stateAfter_succ reached
      obtain ⟨first, once, here⟩ :=
        Machine.dispatch_storesOnce _ world _ _ (congrArg Prod.fst stepped)
      obtain ⟨others, few, there⟩ := ih rest
      refine ⟨first ++ others, ?_, ?_⟩
      · rw [List.length_append]
        omega
      · rw [there, show after.locals = m.locals.storeAll first from here, Locals.storeAll_append]

/-- The bindings of a run are those of stores in turn, no more than the instructions that it
began. -/
theorem run_storeAll (p : Program) (limits : Limits) (builtins : BuiltinSet) (host : Host σ)
    (world : σ) :
    ∃ stores, stores.length ≤ (p.run limits builtins host world).steps ∧
      (p.run limits builtins host world).locals = Locals.storeAll [] stores := by
  rcases p.run_endsWithin limits builtins host world with
    ⟨n, last, before, _, reached, ends⟩ | forever
  swap
  · rw [forever]
    exact ⟨[], Nat.le_refl 0, rfl⟩
  obtain ⟨stores, few, same⟩ := stateAfter_storeAll reached
  rw [Nat.zero_add] at ends
  generalize p.run limits builtins host world = report at ends
  cases ends with
  | atEnd => exact ⟨stores, few, same⟩
  | exhausted | failed => exact ⟨stores, Nat.le_succ_of_le few, same⟩
  | returned _ _ finished =>
      obtain ⟨more, once, here⟩ :=
        Machine.dispatch_storesOnce _ before _ _ (congrArg Prod.fst finished)
      refine ⟨stores ++ more, ?_, ?_⟩
      · rw [List.length_append]
        exact Nat.add_le_add few once
      · rw [Locals.storeAll_append]
        exact here.trans (congrArg (Locals.storeAll · more) same)

end Program

end Runs

end LessonScript
