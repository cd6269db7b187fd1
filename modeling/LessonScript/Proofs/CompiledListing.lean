import LessonScript.Proofs.Correspondence
import LessonScript.Proofs.ScriptReferences
import Mathlib.Data.List.Forall2

/-!
A compiled program survives its listing.

Whatever instructions are carried over, those that were read match those that were written, and
the tables that were read hold what the instructions refer to, each once (`CarriesAll.matches`,
`CarriesAll.constants`, `CarriesAll.names`).  The code of a script refers to its literals in the
order of its table, so the constants keep their indices.  The names need not: an assigned name is
entered before the names of its expression, but its instruction comes behind theirs.
-/

namespace LessonScript

open Assembly

theorem nodup_foldl_intern {α : Type} [BEq α] [LawfulBEq α] (xs : List α) {pool : List α}
    (nodup : pool.Nodup) : (xs.foldl intern pool).Nodup := by
  induction xs generalizing pool with
  | nil => exact nodup
  | cons x xs ih =>
      apply ih
      unfold intern
      split
      · exact nodup
      · rename_i unknown
        rw [List.contains_iff_mem] at unknown
        refine List.nodup_append.mpr ⟨nodup, List.nodup_singleton x, ?_⟩
        rintro y member z last rfl
        exact unknown (List.mem_singleton.mp last ▸ member)

theorem map_foldl_intern {α β : Type} [BEq α] [LawfulBEq α] [BEq β] [LawfulBEq β] {f : α → β}
    (injective : Function.Injective f) (xs pool : List α) :
    (xs.foldl intern pool).map f = (xs.map f).foldl intern (pool.map f) := by
  induction xs generalizing pool with
  | nil => rfl
  | cons x xs ih =>
      have known : (pool.map f).contains (f x) = pool.contains x := by
        rw [Bool.eq_iff_iff, List.contains_iff_mem, List.contains_iff_mem,
          List.mem_map_of_injective injective]
      rw [List.foldl_cons, List.map_cons, List.foldl_cons, ih]
      congr 1
      unfold intern
      rw [known]
      split
      · rfl
      · rw [List.map_append, List.map_singleton]

theorem value_injective : Function.Injective Literal.value := by
  intro l l' same
  have denoted := Value.literal?_eq_some_iff.mpr same
  rw [Value.literal?_eq_some_iff.mpr rfl] at denoted
  exact Option.some.inj denoted

namespace Program

theorem contains_eq_isSome {α : Type} [BEq α] [LawfulBEq α] (xs : Array α) (x : α) :
    xs.toList.contains x = (xs.findIdx? (· == x)).isSome := by
  rw [Array.findIdx?_isSome, Bool.eq_iff_iff, List.contains_iff_mem, Array.mem_toList_iff,
    Array.any_eq_true, Array.mem_iff_getElem]
  simp only [beq_iff_eq]

theorem toList_addConstant (p : Program) (l : Literal) :
    (p.addConstant l.value).1.constants.toList = intern p.constants.toList l.value := by
  have literal : l.value.literal?.isSome = true := by
    rw [Value.literal?_eq_some_iff.mpr rfl]
    rfl
  unfold addConstant intern
  rw [if_pos literal, contains_eq_isSome]
  cases p.constants.findIdx? (· == l.value) with
  | some index => rfl
  | none => exact Array.toList_push

theorem toList_addName (p : Program) (id : String) :
    (p.addName id).1.names.toList = intern p.names.toList id := by
  unfold addName intern
  rw [contains_eq_isSome]
  cases p.names.findIdx? (· == id) with
  | some index => rfl
  | none => exact Array.toList_push

theorem names_addConstant (p : Program) (v : Value) : (p.addConstant v).1.names = p.names := by
  unfold addConstant
  dsimp only
  split <;> rfl

theorem constants_addName (p : Program) (id : String) :
    (p.addName id).1.constants = p.constants := by
  unfold addName
  split <;> rfl

theorem Matches.mono {p q r : Program} {op op' : Opcode} (same : Matches p q op op')
    (within : q.TablesWithin r) : Matches p r op op' := by
  cases same with
  | loadConst left right => exact .loadConst left (within.constants right)
  | loadName left right => exact .loadName left (within.names right)
  | loadFast left right => exact .loadFast left (within.names right)
  | storeName left right => exact .storeName left (within.names right)
  | storeFast left right => exact .storeFast left (within.names right)
  | same constant name => exact .same constant name

end Program

namespace Assembly

section Carries

variable {p q q' : Program} {op op' : Opcode}

theorem Carries.matches (carries : Carries p q op q' op') : p.Matches q' op op' := by
  cases carries with
  | constant entry _ => exact .loadConst entry (q.addConstant_spec _).2
  | @named _ _ _ id known entry _ =>
      have entry' := (q.addName_spec id).2
      rcases eq_of_named? known with ⟨_, rfl⟩ | ⟨_, rfl⟩ | ⟨_, rfl⟩ | ⟨_, rfl⟩
      · exact .loadName entry entry'
      · exact .loadFast entry entry'
      · exact .storeName entry entry'
      · exact .storeFast entry entry'
  | @numbered _ _ n known _ =>
      obtain ⟨constant, name⟩ := tables_of_numbered? known n
      exact .same constant name
  | bare known =>
      obtain ⟨constant, name⟩ := tables_of_bare? known
      exact .same constant name
  | comparison | unknown => exact .same rfl rfl

/-- The tables get the constant or name that the instruction refers to, and nothing else. -/
theorem Carries.entered (carries : Carries p q op q' op') :
    q'.constants.toList = (p.constantOf? op).toList.foldl intern q.constants.toList ∧
      q'.names.toList = (p.nameOf? op).toList.foldl intern q.names.toList := by
  have plain {op : Opcode} (constant : op.usesConstant = false) (name : op.usesName = false) :
      q.constants.toList = (p.constantOf? op).toList.foldl intern q.constants.toList ∧
        q.names.toList = (p.nameOf? op).toList.foldl intern q.names.toList := by
    obtain ⟨noConstant, noName⟩ := Program.referred_eq_none (p := p) constant name
    rw [noConstant, noName]
    exact ⟨rfl, rfl⟩
  cases carries with
  | @constant index l entry _ =>
      have referred : p.constantOf? (.loadConst index) = some l.value := entry
      rw [referred]
      exact ⟨q.toList_addConstant l, congrArg Array.toList (q.names_addConstant l.value)⟩
  | @named _ _ index id known entry _ =>
      have constants := congrArg Array.toList (q.constants_addName id)
      have names := q.toList_addName id
      rcases eq_of_named? known with ⟨_, rfl⟩ | ⟨_, rfl⟩ | ⟨_, rfl⟩ | ⟨_, rfl⟩
      all_goals
        refine ⟨constants, ?_⟩
        unfold Program.nameOf?
        dsimp only
        rw [entry]
        exact names
  | @numbered _ _ n known _ =>
      obtain ⟨constant, name⟩ := tables_of_numbered? known n
      exact plain constant name
  | bare known =>
      obtain ⟨constant, name⟩ := tables_of_bare? known
      exact plain constant name
  | comparison | unknown => exact plain rfl rfl

end Carries

section CarriesAll

variable {p q r : Program} {n : Nat} {ops : List Opcode}

theorem exists_carriesAll (carriable : ∀ op ∈ ops, p.Carriable op) (q : Program) (n : Nat) :
    ∃ r, CarriesAll p q n ops r := by
  induction ops generalizing q n with
  | nil => exact ⟨q, .nil⟩
  | cons op ops ih =>
      obtain ⟨first, others⟩ := List.forall_mem_cons.mp carriable
      obtain ⟨q', op', carries⟩ := first q
      obtain ⟨r, rest⟩ := ih others (q'.emit op' n).1 (n + 1)
      exact ⟨r, .cons carries rest⟩

theorem CarriesAll.tablesWithin (carriesAll : CarriesAll p q n ops r) : q.TablesWithin r := by
  induction carriesAll with
  | nil => exact .of_eq rfl rfl
  | cons carries _ ih => exact carries.reads.tablesWithin.trans ⟨ih.constants, ih.names⟩

theorem CarriesAll.matches (carriesAll : CarriesAll p q n ops r) :
    ∃ read, r.ops = q.ops ++ read ∧ List.Forall₂ (p.Matches r) ops read := by
  induction carriesAll with
  | nil => exact ⟨[], (List.append_nil _).symm, .nil⟩
  | @cons q q' r n op op' ops carries rest ih =>
      obtain ⟨read, joined, matched⟩ := ih
      have sameOps : (q'.emit op' n).1.ops = q.ops ++ [op'] := by
        simp [Program.ops, Program.emit, carries.reads.code_eq]
      have within : q'.TablesWithin r := ⟨rest.tablesWithin.constants, rest.tablesWithin.names⟩
      refine ⟨op' :: read, ?_, .cons (carries.matches.mono within) matched⟩
      rw [joined, sameOps, List.append_assoc, List.singleton_append]

/-- The tables get what the instructions refer to, each entry where it comes up first. -/
theorem CarriesAll.entered (carriesAll : CarriesAll p q n ops r) :
    r.constants.toList = (ops.filterMap p.constantOf?).foldl intern q.constants.toList ∧
      r.names.toList = (ops.filterMap p.nameOf?).foldl intern q.names.toList := by
  induction carriesAll with
  | nil => exact ⟨rfl, rfl⟩
  | @cons q q' r n op op' ops carries rest ih =>
      obtain ⟨constants, names⟩ := carries.entered
      constructor
      · refine ih.1.trans ?_
        change (ops.filterMap p.constantOf?).foldl intern q'.constants.toList = _
        rw [constants, List.filterMap_cons]
        cases p.constantOf? op <;> rfl
      · refine ih.2.trans ?_
        change (ops.filterMap p.nameOf?).foldl intern q'.names.toList = _
        rw [names, List.filterMap_cons]
        cases p.nameOf? op <;> rfl

end CarriesAll

end Assembly

namespace Program

theorem corresponds_of_matches {p q : Program}
    (matched : List.Forall₂ (p.Matches q) p.ops q.ops) : p.Corresponds q := by
  obtain ⟨length, each⟩ := List.forall₂_iff_get.mp matched
  constructor
  · simpa [ops, Program.length] using length.symm
  · intro offset a b left right
    obtain ⟨within, rfl⟩ := Array.getElem?_eq_some_iff.mp left
    obtain ⟨within', rfl⟩ := Array.getElem?_eq_some_iff.mp right
    have same := each offset (by simpa [ops] using within) (by simpa [ops] using within')
    simpa [ops] using same

section Refers

variable {p : Program} {ls : List Literal} {ids : List String}

theorem referred_constants (refers : p.Refers p.code.toList ⟨ls, ids⟩ ⟨[], []⟩) :
    p.ops.filterMap p.constantOf? = ls.map Literal.value := by
  have order := refers.constants
  rw [List.map_nil, List.append_nil] at order
  rw [order, ops, List.filterMap_map]
  rfl

theorem mem_referred_names (refers : p.Refers p.code.toList ⟨ls, ids⟩ ⟨[], []⟩) (id : String) :
    id ∈ p.ops.filterMap p.nameOf? ↔ id ∈ ids := by
  have names := refers.names id
  simp only [List.not_mem_nil, or_false] at names
  rw [names, ops, List.filterMap_map]
  rfl

end Refers

/-- The listing of a compiled program is read as a program with the same listing and the same
constants in the same places, which has the same names and matching instructions, and which runs
alike under all limits, builtins and hosts, but for the lines in errors.  A program that outgrows
the width of an operand is none of the machine's, which is all that `fits` leaves out. -/
theorem compiled_survives_listing {source : String} {p : Program}
    (compiled : ofSource? source = .ok p)
    (fits : ∀ instruction ∈ p.code, instruction.op.OperandFits) :
    ∃ q, ofListing? p.listing = .ok q ∧ q.listing = p.listing ∧ q.constants = p.constants ∧
      q.names.toList.Perm p.names.toList ∧ p.Corresponds q ∧
      ∀ {σ : Type} (limits : Limits) (builtins : BuiltinSet) (host : Host σ) (world : σ),
        (q.run limits builtins host world).withoutLines =
          (p.run limits builtins host world).withoutLines := by
  obtain ⟨script, read, rfl⟩ := exists_of_ofSource? compiled
  have uses := ofScript_uses script
  have refers := ofScript_refers (Tables.listable_of_read read)
  have carriable : ∀ op ∈ (ofScript script).ops, (ofScript script).Carriable op := by
    intro op member
    obtain ⟨instruction, inside, rfl⟩ := List.mem_map.mp member
    exact refers.carriable instruction inside (fits instruction (Array.mem_toList_iff.mp inside))
  obtain ⟨q, carriesAll⟩ := exists_carriesAll carriable .empty 1
  obtain ⟨read, same, matched⟩ := carriesAll.matches
  rw [show read = q.ops from same.symm] at matched
  have corresponds := corresponds_of_matches matched
  obtain ⟨constants, names⟩ := carriesAll.entered
  refine ⟨q, ?_, corresponds.listing_eq, ?_, ?_, corresponds, ?_⟩
  · rw [ofListing?, Program.listing_eq]
    exact carriesAll.addLines_eq
  · apply Array.toList_inj.mp
    rw [uses.constants, constants, referred_constants refers]
    exact (map_foldl_intern value_injective _ []).symm
  · rw [uses.names, names]
    refine (List.perm_ext_iff_of_nodup (nodup_foldl_intern _ .nil) (nodup_foldl_intern _ .nil)).mpr
      fun id => ?_
    rw [mem_foldl_intern, mem_foldl_intern, mem_referred_names refers]
  · exact fun limits builtins host world => corresponds.run_eq limits builtins host world

/-- A name that is assigned comes before those of its expression; there are a text with a quote and
an escape, a loop, a call, and a name that nothing is bound to. -/
theorem assignment_survives_listing :
    ∃ p q, ofSource? "a = b + 'it\\'s\\t'\nwhile len(a) > 1e3:\n    n -= -0.5\nstop\n" = .ok p ∧
      (∀ instruction ∈ p.code, instruction.op.OperandFits) ∧ ofListing? p.listing = .ok q ∧
      q.listing = p.listing ∧ q.constants = p.constants ∧ q.names.toList.Perm p.names.toList ∧
      p.Corresponds q ∧
      ∀ {σ : Type} (limits : Limits) (builtins : BuiltinSet) (host : Host σ) (world : σ),
        (q.run limits builtins host world).withoutLines =
          (p.run limits builtins host world).withoutLines := by
  obtain ⟨p, compiled⟩ := exists_of_isOk
    "a = b + 'it\\'s\\t'\nwhile len(a) > 1e3:\n    n -= -0.5\nstop\n" (by decide +kernel)
  have small : ((ofSource?
      "a = b + 'it\\'s\\t'\nwhile len(a) > 1e3:\n    n -= -0.5\nstop\n").toOption.any fun p =>
        decide (∀ instruction ∈ p.code, instruction.op.OperandFits)) = true := by
    decide +kernel
  rw [compiled] at small
  have fits := of_decide_eq_true small
  obtain ⟨q, read, survives⟩ := compiled_survives_listing compiled fits
  exact ⟨p, q, compiled, fits, read, survives⟩

end Program

end LessonScript
