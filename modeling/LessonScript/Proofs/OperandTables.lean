import LessonScript.Proofs.CompiledListing
import LessonScript.Proofs.KeyedTables

/-!
The tables of programs.

The tables of a program that was compiled or read from a listing are those after a number of calls,
one for each operand of its instructions, so all their entries are used, and none stands twice.
-/

namespace LessonScript.Program

variable {p q : Program} {e e' : Entry} {i j : Nat}

/-- The tables were filled by calls that enter one operand at a time. -/
def Filled (p : Program) : Prop :=
  ∃ entries, p = (afterAll entries).withCode p.code

theorem Filled.enter (filled : p.Filled) (e : Entry) : (p.enter e).1.Filled := by
  cases filled with
  | intro entries same =>
      have code : (p.enter e).1.code = p.code := by
        cases e with
        | constant v => exact p.code_addConstant v
        | name id => exact p.code_addName id
      refine ⟨entries ++ [e], ?_⟩
      rw [code, afterAll_concat, same]
      cases e with
      | constant v => exact congrArg Prod.fst (addConstant_withCode _ _ v)
      | name id => exact congrArg Prod.fst (addName_withCode _ _ id)

theorem Filled.emit (filled : p.Filled) (op : Opcode) (line : Nat) : (p.emit op line).1.Filled := by
  cases filled with
  | intro entries same => exact ⟨entries, congrArg (·.withCode (p.emit op line).1.code) same⟩

theorem afterAll_names (entries : List Entry) (ids : List String) :
    (afterAll (entries ++ ids.map .name)).names.toList =
        ids.foldl intern (afterAll entries).names.toList ∧
      (afterAll (entries ++ ids.map .name)).constants = (afterAll entries).constants := by
  induction ids using List.reverseRecOn with
  | nil =>
      rw [List.map_nil, List.append_nil]
      exact ⟨rfl, rfl⟩
  | append_singleton ids id ih =>
      rw [List.map_append, List.map_singleton, ← List.append_assoc, afterAll_concat,
        List.foldl_concat, ← ih.1, ← ih.2]
      exact ⟨toList_addName _ id, constants_addName _ id⟩

theorem afterAll_literals (ls : List Literal) :
    (afterAll (ls.map fun l => .constant l.value)).constants.toList =
        (ls.map Literal.value).foldl intern [] ∧
      (afterAll (ls.map fun l => .constant l.value)).names = #[] := by
  induction ls using List.reverseRecOn with
  | nil => exact ⟨rfl, rfl⟩
  | append_singleton ls l ih =>
      rw [List.map_append, List.map_append, List.map_singleton,
        List.map_singleton, afterAll_concat, List.foldl_concat, ← ih.1, ← ih.2]
      exact ⟨toList_addConstant _ l, names_addConstant _ l.value⟩

/-- No table has an entry twice, and each entry is the operand of an instruction. -/
structure Concise (p : Program) : Prop where
  constants : p.constants.toList.Nodup
  names : p.names.toList.Nodup
  loaded : ∀ index < p.constants.size, .loadConst index ∈ p.ops
  named : ∀ index < p.names.size, ∃ op ∈ p.ops, op.usesName = true ∧ op.operand? = some index

/-- Each place of a pool holds one of the entries that were collected, which stands there only. -/
theorem exists_entry_of_pool {α : Type} [BEq α] [LawfulBEq α] {xs : Array α} {collected : List α}
    (pooled : xs.toList = collected.foldl intern []) (inside : i < xs.size) :
    ∃ x ∈ collected, ∀ j, xs[j]? = some x → j = i := by
  have entry : xs.toList[i]? = some xs[i] := by
    rw [Array.getElem?_toList, Array.getElem?_eq_getElem inside]
  have nodup : xs.toList.Nodup := by
    rw [pooled]
    exact nodup_foldl_intern _ .nil
  have member := List.mem_of_getElem? entry
  rw [pooled, mem_foldl_intern] at member
  refine ⟨xs[i], member.resolve_left List.not_mem_nil, fun j again => ?_⟩
  rw [← Array.getElem?_toList] at again
  exact (List.getElem?_inj (List.getElem?_eq_some_iff.mp again).1 nodup).mp (again.trans entry.symm)

theorem eq_of_constantOf? {op : Opcode} {v : Value} (referred : p.constantOf? op = some v) :
    ∃ index, op = .loadConst index ∧ p.constants[index]? = some v := by
  cases op with
  | loadConst index => exact ⟨index, rfl, referred⟩
  | _ => cases referred

theorem operand?_of_nameOf? {op : Opcode} {id : String} (referred : p.nameOf? op = some id) :
    op.usesName = true ∧ ∃ index, op.operand? = some index ∧ p.names[index]? = some id := by
  cases op with
  | loadName index | loadFast index | storeName index | storeFast index =>
      exact ⟨rfl, index, rfl, referred⟩
  | _ => cases referred

theorem concise_of_referred {ids : List String}
    (constants : p.constants.toList = (p.ops.filterMap p.constantOf?).foldl intern [])
    (names : p.names.toList = ids.foldl intern [])
    (referred : ∀ id ∈ ids, id ∈ p.ops.filterMap p.nameOf?) : p.Concise := by
  constructor
  · rw [constants]
    exact nodup_foldl_intern _ .nil
  · rw [names]
    exact nodup_foldl_intern _ .nil
  · intro index inside
    obtain ⟨v, member, only⟩ := exists_entry_of_pool constants inside
    obtain ⟨op, inCode, refers⟩ := List.mem_filterMap.mp member
    obtain ⟨index', same, entry⟩ := eq_of_constantOf? refers
    rw [← only index' entry, ← same]
    exact inCode
  · intro index inside
    obtain ⟨id, member, only⟩ := exists_entry_of_pool names inside
    obtain ⟨op, inCode, refers⟩ := List.mem_filterMap.mp (referred id member)
    obtain ⟨uses, index', operand, entry⟩ := operand?_of_nameOf? refers
    rw [← only index' entry]
    exact ⟨op, inCode, uses, operand⟩

theorem tables_of_source {source : String} (compiled : ofSource? source = .ok p) :
    p.Filled ∧ p.Concise := by
  obtain ⟨script, read, rfl⟩ := exists_of_ofSource? compiled
  have uses := ofScript_uses script
  have refers := ofScript_refers (Tables.listable_of_read read)
  have constants : (ofScript script).constants.toList =
      ((script.body.literalsBefore [.nothing]).map Literal.value).foldl intern [] :=
    uses.constants.trans (map_foldl_intern value_injective _ [])
  have names : (ofScript script).names.toList = (script.body.namesBefore []).foldl intern [] :=
    uses.names
  constructor
  · have literals := afterAll_literals (script.body.literalsBefore [.nothing])
    have both := afterAll_names
      ((script.body.literalsBefore [.nothing]).map fun l => .constant l.value)
      (script.body.namesBefore [])
    rw [literals.2, ← names] at both
    rw [← constants, ← both.2] at literals
    exact ⟨_, congrArg₂ (Program.mk _) (Array.toList_inj.mp literals.1.symm)
      (Array.toList_inj.mp both.1.symm)⟩
  · refine concise_of_referred ?_ names fun id member => ?_
    · rw [constants, referred_constants refers]
    · exact (mem_referred_names refers id).mpr member

end LessonScript.Program

namespace LessonScript.Assembly

open Program

variable {p q : Program} {number : Nat}

theorem Reads.filled {mnemonic : String} {operand : Option (List Char)} {op : Opcode}
    (reads : Reads p mnemonic operand q op) (filled : p.Filled) : q.Filled := by
  cases reads with
  | @constant _ l _ => exact filled.enter (.constant l.value)
  | @named _ _ _ id _ _ => exact filled.enter (.name id)
  | comparison | numbered | bare | unknown => exact filled

theorem Adds.filled {line : String} (adds : Adds p number line q) (filled : p.Filled) :
    q.Filled := by
  cases adds with
  | passed => exact filled
  | instruction _ reads => exact (reads.filled filled).emit _ _

end LessonScript.Assembly

namespace LessonScript.Program

open Assembly

theorem tables_of_listing {lines : List String} {p : Program} (read : ofListing? lines = .ok p) :
    p.Filled ∧ p.Concise := by
  constructor
  · exact addLines_preserves Adds.filled read ⟨[], rfl⟩
  · have relists := relists_of_addLines read .nil
    have entered := relists.entered
    exact concise_of_referred entered.1 entered.2 fun _ => id

/-- The tables of constants and names keep what is entered into them, and nothing twice, whether a
call searches the tables or looks the entry up in maps from keys to indices.  The index of an entry
is good at once and after all later calls; two calls return the same index exactly if they enter the
same name, or the same constant and this is a literal; and a constant that is none is put where none
was.  The tables of all programs come about by such calls, without an entry twice, and each entry is
the operand of an instruction. -/
theorem operand_tables_stable :
    (∀ entries : List Entry, (KeyedTables.afterAll entries).Follow (afterAll entries)) ∧
    (∀ (before : List Entry) (entry : Entry),
      ((KeyedTables.afterAll before).enter entry).2 = indexOf before entry) ∧
    (∀ (before : List Entry) (entry : Entry) (after : List Entry),
      (afterAll (before ++ entry :: after)).HasEntry (indexOf before entry) entry) ∧
    (∀ (before between : List Entry) (v w : Value),
      indexOf (before ++ .constant v :: between) (.constant w) = indexOf before (.constant v) ↔
        v = w ∧ w.literal?.isSome = true) ∧
    (∀ (before between : List Entry) (id id' : String),
      indexOf (before ++ .name id :: between) (.name id') = indexOf before (.name id) ↔ id = id') ∧
    (∀ (before : List Entry) (v w : Value), v.literal? = none →
      ¬ (afterAll before).HasEntry (indexOf before (.constant v)) (.constant w)) ∧
    (∀ (source : String) (p : Program), ofSource? source = .ok p → p.Filled ∧ p.Concise) ∧
    ∀ (lines : List String) (p : Program), ofListing? lines = .ok p → p.Filled ∧ p.Concise := by
  constructor
  · exact KeyedTables.afterAll_follow
  constructor
  · exact keyed_index
  constructor
  · exact indexOf_holds
  constructor
  · intro before between v w
    have beside : (Entry.constant v).Beside (.constant w) := trivial
    rw [indexOf_eq_iff beside, Entry.constant.injEq]
    rfl
  constructor
  · intro before between id id'
    have beside : (Entry.name id).Beside (.name id') := trivial
    rw [indexOf_eq_iff beside, Entry.name.injEq]
    exact and_iff_left rfl
  constructor
  · intro before v w other
    exact not_hasEntry_of_literal?_eq_none (afterAll before) other w
  constructor
  · exact fun _ _ => tables_of_source
  · exact fun _ _ => tables_of_listing

/-- The two zeros, a truth that equals an integer, and a program and a listing with operands that
come up twice. -/
theorem equal_operands_stable :
    ((KeyedTables.afterAll [.constant (.float ⟨0⟩)]).enter
          (.constant (.float ⟨0x8000000000000000⟩))).2 ≠
        ((KeyedTables.afterAll []).enter (.constant (.float ⟨0⟩))).2 ∧
      indexOf [.constant (.float ⟨0⟩)] (.constant (.float ⟨0x8000000000000000⟩)) ≠
        indexOf [] (.constant (.float ⟨0⟩)) ∧
      indexOf [.constant (.int 1), .name "x"] (.constant (.bool true)) ≠
        indexOf [] (.constant (.int 1)) ∧
      indexOf [.name "x", .constant (.int 1)] (.name "x") = indexOf [] (.name "x") ∧
      ¬ (afterAll [.constant (.builtin .print)]).HasEntry
        (indexOf [.constant (.builtin .print)] (.constant (.builtin .print)))
        (.constant (.builtin .print)) ∧
      (∃ p, ofSource? "x = 1\nx = 1.0 + x\nprint(x, 1, 'x')\n" = .ok p ∧ p.Filled ∧ p.Concise) ∧
      ∃ p, ofListing? ["LOAD_CONST 1", "STORE_NAME x", "LOAD_CONST +1", "LOAD_FAST x"] = .ok p ∧
        p.Filled ∧ p.Concise := by
  obtain ⟨_, keyed, _, constants, names, fresh, source, listing⟩ := operand_tables_stable
  obtain ⟨p, compiled⟩ := exists_of_isOk "x = 1\nx = 1.0 + x\nprint(x, 1, 'x')\n"
    (by decide +kernel)
  obtain ⟨q, read⟩ : ∃ q, ofListing? ["LOAD_CONST 1", "STORE_NAME x", "LOAD_CONST +1",
      "LOAD_FAST x"] = .ok q :=
    exists_ok_of_isOk (by decide +kernel)
  have zeros : Value.float ⟨0⟩ ≠ .float ⟨0x8000000000000000⟩ := by decide
  have ones : Value.int 1 ≠ .bool true := by decide
  have apart : indexOf [.constant (.float ⟨0⟩)] (.constant (.float ⟨0x8000000000000000⟩)) ≠
      indexOf [] (.constant (.float ⟨0⟩)) :=
    fun same => zeros ((constants [] [] _ _).mp same).1
  exact ⟨by rwa [keyed, keyed], apart,
    fun same => ones ((constants [] [.name "x"] _ _).mp same).1,
    (names [] [.constant (.int 1)] _ _).mpr rfl, fresh _ _ _ rfl,
    ⟨p, compiled, source _ _ compiled⟩, q, read, listing _ _ read⟩

end LessonScript.Program
