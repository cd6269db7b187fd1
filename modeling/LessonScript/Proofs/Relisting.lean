import LessonScript.Proofs.LiteralText

/-!
Writing a program as a listing and reading it again.

An instruction is carried over from one program to another when its line in the listing of the
first is read into the second (`Assembly.Carries`, `Assembly.Carries.addLine_eq`).  A program that
was itself read from a listing is carried over with all its indices (`Reads.carries`), so its
listing is read as the same program with the lines counted from one
(`Program.listing_is_normal_form`).
-/

namespace LessonScript

namespace Program

/-- Every entry of the first program's tables has the same place in those of the second. -/
structure TablesWithin (p q : Program) : Prop where
  constants : ∀ {index : Nat} {v : Value}, p.constants[index]? = some v →
    q.constants[index]? = some v
  names : ∀ {index : Nat} {id : String}, p.names[index]? = some id → q.names[index]? = some id

theorem TablesWithin.of_eq {p q : Program} (constants : p.constants = q.constants)
    (names : p.names = q.names) : p.TablesWithin q :=
  ⟨by rw [constants]; exact id, by rw [names]; exact id⟩

theorem TablesWithin.trans {p q r : Program} (first : p.TablesWithin q)
    (second : q.TablesWithin r) : p.TablesWithin r :=
  ⟨fun entry => second.constants (first.constants entry),
    fun entry => second.names (first.names entry)⟩

theorem addConstant_spec (p : Program) (v : Value) :
    p.TablesWithin (p.addConstant v).1 ∧
      (p.addConstant v).1.constants[(p.addConstant v).2]? = some v := by
  unfold addConstant
  dsimp only
  split
  · rename_i index found
    refine ⟨.of_eq rfl rfl, ?_⟩
    split at found
    · obtain ⟨within, same, _⟩ := Array.findIdx?_eq_some_iff_getElem.mp found
      rw [Array.getElem?_eq_getElem within, eq_of_beq same]
    · cases found
  · refine ⟨⟨fun {index w} entry => ?_, fun entry => entry⟩, Array.getElem?_push_size⟩
    obtain ⟨within, _⟩ := Array.getElem?_eq_some_iff.mp entry
    rw [Array.getElem?_push_lt within]
    rw [← entry, Array.getElem?_eq_getElem within]

theorem addName_spec (p : Program) (id : String) :
    p.TablesWithin (p.addName id).1 ∧ (p.addName id).1.names[(p.addName id).2]? = some id := by
  unfold addName
  split
  · rename_i index found
    obtain ⟨within, same, _⟩ := Array.findIdx?_eq_some_iff_getElem.mp found
    exact ⟨.of_eq rfl rfl, by rw [Array.getElem?_eq_getElem within, eq_of_beq same]⟩
  · refine ⟨⟨fun entry => entry, fun {index w} entry => ?_⟩, Array.getElem?_push_size⟩
    obtain ⟨within, _⟩ := Array.getElem?_eq_some_iff.mp entry
    rw [Array.getElem?_push_lt within]
    rw [← entry, Array.getElem?_eq_getElem within]

/-- The program with other instructions. -/
def withCode (p : Program) (code : Array Instruction) : Program :=
  { p with code := code }

theorem addConstant_withCode (p : Program) (code : Array Instruction) (v : Value) :
    (p.withCode code).addConstant v = ((p.addConstant v).1.withCode code, (p.addConstant v).2) := by
  unfold addConstant withCode
  dsimp only
  split <;> rfl

theorem addName_withCode (p : Program) (code : Array Instruction) (id : String) :
    (p.withCode code).addName id = ((p.addName id).1.withCode code, (p.addName id).2) := by
  unfold addName withCode
  dsimp only
  split <;> rfl

@[simp]
theorem code_addConstant (p : Program) (v : Value) : (p.addConstant v).1.code = p.code := by
  unfold addConstant
  dsimp only
  split <;> rfl

@[simp]
theorem code_addName (p : Program) (id : String) : (p.addName id).1.code = p.code := by
  unfold addName
  split <;> rfl

end Program

namespace Assembly

/-- The instruction `op` of `p` can be written in a listing, and when it is read behind `q`, this
becomes `q'` and the instruction `op'`. -/
inductive Carries (p q : Program) : Opcode → Program → Opcode → Prop
  | constant {index : Nat} {l : Literal} (entry : p.constants[index]? = some l.value)
      (canonical : l.Canonical) :
      Carries p q (.loadConst index) (q.addConstant l.value).1
        (.loadConst (q.addConstant l.value).2)
  | named {mnemonic : String} {make : Nat → Opcode} {index : Nat} {id : String}
      (known : named? mnemonic = some make) (entry : p.names[index]? = some id)
      (name : isName id.toList = true) :
      Carries p q (make index) (q.addName id).1 (make (q.addName id).2)
  | numbered {mnemonic : String} {make : Nat → Opcode} {n : Nat}
      (known : numbered? mnemonic = some make) (small : n < 0x100000000) :
      Carries p q (make n) q (make n)
  | comparison (op : CompareOp) : Carries p q (.compare op) q (.compare op)
  | bare {mnemonic : String} {op : Opcode} (known : bare? mnemonic = some op) : Carries p q op q op
  | unknown {mnemonic : String} {arg : Option String} (foreign : Foreign mnemonic)
      (written : Written mnemonic.toList (arg.map String.toList)) :
      Carries p q (.unknown mnemonic arg) q (.unknown mnemonic arg)

def operandOf (p : Program) (op : Opcode) : Option (List Char) :=
  (p.operandText? op).map String.toList

theorem listingLine_eq (p : Program) (op : Opcode) :
    p.listingLine op = String.ofList (spaced op.mnemonic.toList (operandOf p op)) := by
  unfold Program.listingLine operandOf
  cases p.operandText? op with
  | none => exact String.ofList_toList.symm
  | some operand =>
      apply String.toList_injective
      simp [spaced]

structure StandsAs (p : Program) (op : Opcode) (mnemonic : String)
    (operand : Option (List Char)) : Prop where
  mnemonic_eq : op.mnemonic = mnemonic
  operand_eq : operandOf p op = operand
  word : Text.IsWord mnemonic.toList
  counts : mnemonic.toList.head? ≠ some '#'

section StandsAs

variable {p : Program} {op : Opcode} {mnemonic : String} {text : List Char}

theorem StandsAs.written (stands : StandsAs p op mnemonic (some text))
    (tight : Text.Tight text) : Written op.mnemonic.toList (operandOf p op) := by
  rw [stands.mnemonic_eq, stands.operand_eq]
  exact ⟨stands.word, stands.counts, fun _ same => Option.some.inj same ▸ tight⟩

theorem standsAs_constant {index : Nat} {v : Value} (entry : p.constants[index]? = some v) :
    StandsAs p (.loadConst index) "LOAD_CONST" (some v.repr.toList) := by
  refine ⟨rfl, ?_, by decide, by decide⟩
  unfold operandOf Program.operandText?
  dsimp only
  rw [entry]
  rfl

theorem standsAs_comparison (op : CompareOp) :
    StandsAs p (.compare op) "COMPARE_OP" (some op.symbol.toList) :=
  ⟨rfl, rfl, by decide, by decide⟩

theorem standsAs_named {make : Nat → Opcode} {index : Nat} {id : String}
    (known : named? mnemonic = some make) (entry : p.names[index]? = some id) :
    StandsAs p (make index) mnemonic (some id.toList) := by
  rcases eq_of_named? known with ⟨rfl, rfl⟩ | ⟨rfl, rfl⟩ | ⟨rfl, rfl⟩ | ⟨rfl, rfl⟩
  all_goals
    refine ⟨rfl, ?_, by decide, by decide⟩
    unfold operandOf Program.operandText?
    dsimp only
    rw [entry]
    rfl

theorem standsAs_numbered {make : Nat → Opcode} (known : numbered? mnemonic = some make)
    (n : Nat) : StandsAs p (make n) mnemonic (some (Text.natText n).toList) := by
  rcases eq_of_numbered? known with
    ⟨rfl, rfl⟩ | ⟨rfl, rfl⟩ | ⟨rfl, rfl⟩ | ⟨rfl, rfl⟩ | ⟨rfl, rfl⟩ | ⟨rfl, rfl⟩ | ⟨rfl, rfl⟩
  all_goals exact ⟨rfl, rfl, by decide, by decide⟩

theorem standsAs_bare (known : bare? mnemonic = some op) : StandsAs p op mnemonic none := by
  unfold bare? at known
  split at known
  case h_12 => cases known
  all_goals
    cases known
    exact ⟨rfl, rfl, by decide, by decide⟩

end StandsAs

section Carries

variable {p q q' : Program} {op op' : Opcode}

/-- The line of an instruction that can be carried over is written from its words. -/
theorem Carries.written (carries : Carries p q op q' op') :
    Written op.mnemonic.toList (operandOf p op) := by
  cases carries with
  | @constant _ l entry _ => exact (standsAs_constant entry).written (tight_repr l)
  | named known entry name =>
      exact (standsAs_named known entry).written (isWord_of_isName name).tight
  | @numbered _ _ n known _ => exact (standsAs_numbered known n).written (isWord_natText n).tight
  | comparison op => exact (standsAs_comparison op).written (isWord_symbol op).tight
  | bare known =>
      have stands := standsAs_bare (p := p) known
      rw [stands.mnemonic_eq, stands.operand_eq]
      exact ⟨stands.word, stands.counts, nofun⟩
  | unknown _ written => exact written

/-- The words of an instruction that can be carried over are read as what it becomes. -/
theorem Carries.reads (carries : Carries p q op q' op') :
    Reads q op.mnemonic (operandOf p op) q' op' := by
  cases carries with
  | constant entry canonical =>
      rw [(standsAs_constant entry).operand_eq]
      exact .constant (literal_repr canonical)
  | named known entry name =>
      have stands := standsAs_named known entry
      rw [stands.operand_eq, stands.mnemonic_eq]
      exact .named known (identifier_eq name)
  | @numbered _ _ n known small =>
      have stands := standsAs_numbered (p := p) known n
      rw [stands.operand_eq, stands.mnemonic_eq]
      exact .numbered known (number_natText small)
  | comparison op => exact .comparison (comparison_symbol op)
  | bare known =>
      have stands := standsAs_bare (p := p) known
      rw [stands.operand_eq, stands.mnemonic_eq]
      exact .bare known
  | @unknown mnemonic arg foreign _ =>
      have same : (operandOf p (.unknown mnemonic arg)).map String.ofList = arg := by
        change (arg.map String.toList).map String.ofList = arg
        cases arg with
        | none => rfl
        | some text => exact congrArg some String.ofList_toList
      have reads : Reads q mnemonic (operandOf p (.unknown mnemonic arg)) q
          (.unknown mnemonic ((operandOf p (.unknown mnemonic arg)).map String.ofList)) :=
        .unknown foreign
      rwa [same] at reads

theorem Carries.addLine_eq (carries : Carries p q op q' op') (number : Nat) :
    addLine q number (p.listingLine op) = .ok (q'.emit op' number).1 := by
  have cut := carries.written.words?_eq
  rw [← listingLine_eq] at cut
  have reads := carries.reads
  rw [← String.ofList_toList (s := op.mnemonic)] at reads
  exact addLine_eq_ok_iff.mpr (.instruction cut reads)

theorem Carries.mono {r : Program} (carries : Carries p q op q' op') (within : p.TablesWithin r) :
    Carries r q op q' op' := by
  cases carries with
  | constant entry canonical => exact .constant (within.constants entry) canonical
  | named known entry name => exact .named known (within.names entry) name
  | numbered known small => exact .numbered known small
  | comparison op => exact .comparison op
  | bare known => exact .bare known
  | unknown foreign written => exact .unknown foreign written

end Carries

theorem isName_of_identifier {text : List Char} {id : String}
    (read : identifier (some text) = .ok id) : isName id.toList = true := by
  simp only [identifier, required, bind, Except.bind] at read
  split at read
  · rename_i name
    cases read
    rwa [String.toList_ofList]
  · cases read

theorem lt_of_readNatBelow? {bound n : Nat} {text : List Char}
    (read : Text.readNatBelow? bound text = some n) : n < bound := by
  unfold Text.readNatBelow? at read
  simpa using (Option.filter_eq_some_iff.mp read).2

theorem lt_of_number {text : List Char} {n : Nat} (read : number (some text) = .ok n) :
    n < 0x100000000 := by
  simp only [number, required, bind, Except.bind] at read
  split at read
  · rename_i found
    cases read
    exact lt_of_readNatBelow? found
  · cases read

section Reads

variable {p q : Program} {mnemonic : String} {operand : Option (List Char)} {op : Opcode}

theorem Reads.tablesWithin (reads : Reads p mnemonic operand q op) : p.TablesWithin q := by
  cases reads with
  | constant => exact (p.addConstant_spec _).1
  | named => exact (p.addName_spec _).1
  | comparison | numbered | bare | unknown => exact .of_eq rfl rfl

theorem Reads.code_eq (reads : Reads p mnemonic operand q op) : q.code = p.code := by
  cases reads with
  | constant => exact p.code_addConstant _
  | named => exact p.code_addName _
  | comparison | numbered | bare | unknown => rfl

/-- An instruction that was read is carried over with the same index, whatever stands before it. -/
theorem Reads.carries (reads : Reads p mnemonic operand q op)
    (written : Written mnemonic.toList operand) (code : Array Instruction) :
    Carries q (p.withCode code) op (q.withCode code) op := by
  cases reads with
  | @constant _ l read =>
      have carries := Carries.constant (q := p.withCode code) (p.addConstant_spec l.value).2
        (canonical_of_literal read)
      rwa [p.addConstant_withCode] at carries
  | @named _ _ _ id known read =>
      have carries := Carries.named (q := p.withCode code) known (p.addName_spec id).2
        (isName_of_identifier read)
      rwa [p.addName_withCode] at carries
  | comparison => exact .comparison _
  | numbered known read => exact .numbered known (lt_of_number read)
  | bare known => exact .bare known
  | unknown foreign =>
      refine .unknown foreign ?_
      cases operand with
      | none => exact written
      | some text => simpa using written

end Reads

/-- The lines of these instructions of `p`, numbered from `n` on, take `q` to `r`. -/
inductive CarriesAll (p : Program) : Program → Nat → List Opcode → Program → Prop
  | nil {q : Program} {n : Nat} : CarriesAll p q n [] q
  | cons {q q' r : Program} {n : Nat} {op op' : Opcode} {ops : List Opcode}
      (carries : Carries p q op q' op') (rest : CarriesAll p (q'.emit op' n).1 (n + 1) ops r) :
      CarriesAll p q n (op :: ops) r

section CarriesAll

variable {p q r : Program} {n : Nat} {ops : List Opcode}

theorem CarriesAll.addLines_eq (carriesAll : CarriesAll p q n ops r) :
    addLines q n (ops.map p.listingLine) = .ok r := by
  induction carriesAll with
  | nil => rfl
  | @cons q q' r n op op' ops carries _ ih =>
      rw [List.map_cons, addLines, carries.addLine_eq n]
      exact ih

theorem CarriesAll.mono {p' : Program} (carriesAll : CarriesAll p q n ops r)
    (within : p.TablesWithin p') : CarriesAll p' q n ops r := by
  induction carriesAll with
  | nil => exact .nil
  | cons carries _ ih => exact .cons (carries.mono within) ih

theorem CarriesAll.concat {r' : Program} {op op' : Opcode} (carriesAll : CarriesAll p q n ops r)
    (carries : Carries p r op r' op') :
    CarriesAll p q n (ops ++ [op]) (r'.emit op' (n + ops.length)).1 := by
  induction carriesAll with
  | nil => exact .cons carries .nil
  | cons first _ ih =>
      refine .cons first ?_
      have behind := ih carries
      rwa [Nat.add_right_comm, Nat.add_assoc, ← List.length_cons] at behind

end CarriesAll

end Assembly

namespace Program

open Assembly

def ops (p : Program) : List Opcode :=
  p.code.toList.map Instruction.op

theorem listing_eq (p : Program) : p.listing = p.ops.map p.listingLine := by
  simp [listing, ops]

def renumberedCode (p : Program) : Array Instruction :=
  p.code.mapIdx fun index instruction => ⟨instruction.op, index + 1⟩

theorem ops_renumbered (p : Program) : (p.withCode p.renumberedCode).ops = p.ops := by
  apply List.ext_getElem
  · simp [ops, withCode, renumberedCode]
  · intro index within within'
    simp [ops, withCode, renumberedCode]

end Program

namespace Assembly

/-- The program is read from its own listing as it is, but for the lines. -/
def Relists (p : Program) : Prop :=
  CarriesAll p .empty 1 p.ops (p.withCode p.renumberedCode)

theorem Adds.relists {p q : Program} {number : Nat} {line : String}
    (adds : Adds p number line q) (relists : Relists p) : Relists q := by
  cases adds with
  | passed => exact relists
  | @instruction mnemonic operand q op words reads =>
      have carries := reads.carries (by rw [String.toList_ofList]; exact written_of_words? words)
        p.renumberedCode
      have carriesAll := (relists.mono reads.tablesWithin).concat carries
      have sameOps : (q.emit op number).1.ops = p.ops ++ [op] := by
        simp [Program.ops, Program.emit, reads.code_eq]
      have sameCode : (q.emit op number).1.renumberedCode =
          p.renumberedCode.push ⟨op, 1 + p.ops.length⟩ := by
        simp [Program.renumberedCode, Program.ops, Program.emit, reads.code_eq, Nat.add_comm]
      unfold Relists
      rw [sameOps, sameCode]
      exact carriesAll.mono (.of_eq rfl rfl)

theorem relists_of_addLines {p q : Program} {number : Nat} {lines : List String}
    (read : addLines p number lines = .ok q) (relists : Relists p) : Relists q :=
  addLines_preserves Adds.relists read relists

end Assembly

namespace Program

open Assembly

/-- The listing of a program that was read from a listing is a normal form of it: it is read as
the same program, bit for bit, with each instruction on the line where it stands, and that program
has the same listing. -/
theorem listing_is_normal_form {lines : List String} {p : Program}
    (read : ofListing? lines = .ok p) :
    ∃ q, ofListing? p.listing = .ok q ∧ q.length = p.length ∧
      (∀ (index : Nat) (instruction : Instruction), p.code[index]? = some instruction →
        q.code[index]? = some ⟨instruction.op, index + 1⟩) ∧
      q.names = p.names ∧ q.constants = p.constants ∧ q.listing = p.listing := by
  have relists := relists_of_addLines read .nil
  refine ⟨p.withCode p.renumberedCode, ?_, by simp [length, withCode, renumberedCode], ?_, rfl, rfl,
    ?_⟩
  · rw [ofListing?, listing_eq]
    exact relists.addLines_eq
  · intro index instruction entry
    simp [withCode, renumberedCode, entry]
  · rw [listing_eq, listing_eq, ops_renumbered]
    rfl

/-- Notes and blanks, signs, escapes, words for numbers, numbers too large for an integer, and an
unknown mnemonic with a text behind it. -/
theorem awkward_listing_has_normal_form :
    ∃ p q, ofListing? ["  LOAD_CONST   +5 ", "# a note", "LOAD_CONST\tnan", "", "FROB  x \t y ",
        "LOAD_CONST \"it's\\t\"", "LOAD_CONST 99999999999999999999", "LOAD_CONST -0",
        "LOAD_CONST -0.0", "LOAD_CONST 5", "STORE_NAME x1", "POP_JUMP_IF_TRUE +07"] = .ok p ∧
      ofListing? p.listing = .ok q ∧ q.length = p.length ∧
      (∀ (index : Nat) (instruction : Instruction), p.code[index]? = some instruction →
        q.code[index]? = some ⟨instruction.op, index + 1⟩) ∧
      q.names = p.names ∧ q.constants = p.constants ∧ q.listing = p.listing ∧
      p.listing = ["LOAD_CONST 5", "LOAD_CONST nan", "FROB x \t y", "LOAD_CONST \"it's\\t\"",
        "LOAD_CONST 1e+20", "LOAD_CONST 0", "LOAD_CONST -0.0", "LOAD_CONST 5", "STORE_NAME x1",
        "POP_JUMP_IF_TRUE 7"] := by
  obtain ⟨p, read⟩ : ∃ p, ofListing? ["  LOAD_CONST   +5 ", "# a note", "LOAD_CONST\tnan", "",
      "FROB  x \t y ", "LOAD_CONST \"it's\\t\"", "LOAD_CONST 99999999999999999999",
      "LOAD_CONST -0", "LOAD_CONST -0.0", "LOAD_CONST 5", "STORE_NAME x1",
      "POP_JUMP_IF_TRUE +07"] = .ok p :=
    exists_ok_of_isOk (by decide +kernel)
  have written : ((ofListing? ["  LOAD_CONST   +5 ", "# a note", "LOAD_CONST\tnan", "",
      "FROB  x \t y ", "LOAD_CONST \"it's\\t\"", "LOAD_CONST 99999999999999999999",
      "LOAD_CONST -0", "LOAD_CONST -0.0", "LOAD_CONST 5", "STORE_NAME x1",
      "POP_JUMP_IF_TRUE +07"]).toOption.any fun p =>
        p.listing == ["LOAD_CONST 5", "LOAD_CONST nan", "FROB x \t y", "LOAD_CONST \"it's\\t\"",
          "LOAD_CONST 1e+20", "LOAD_CONST 0", "LOAD_CONST -0.0", "LOAD_CONST 5", "STORE_NAME x1",
          "POP_JUMP_IF_TRUE 7"]) = true := by
    decide +kernel
  rw [read] at written
  obtain ⟨q, again, length, lines, names, constants, listing⟩ := listing_is_normal_form read
  exact ⟨p, q, read, again, length, lines, names, constants, listing, eq_of_beq written⟩

end Program

end LessonScript
