import LessonScript.Proofs.SwappedPieces

/-!
Ways to put a part of a script that have the same code.

Each of them is a pair of pieces of which readers make parts that are alike: an expression and the
same in parentheses, an assignment that applies an operator and the one that is written out, a suite
on the line of its header and in a block of its own, and the branches behind `elif` and behind
`else`.  Such pieces can be swapped where a part of that kind is read.
-/

namespace LessonScript

open TokenReader ExprReader StmtReader

section Expressions

variable {n bound : Nat} {e : Expr} {ts back : List Token} {name sign left right : Token}

theorem Reads.negation_of_primary (starts : (Phrase.operand .primary e).Begins ts)
    (primary : Reads n (.operand .primary e) ts) : Reads n (.operand .negation e) ts :=
  readUnary_call (starts.loosen (by decide)) (readCall_start primary)

theorem Reads.expression_of_sum (starts : (Phrase.operand .sum e).Begins ts)
    (sum : Reads n (.operand .sum e) ts) : Reads (n + 1) (.operand .expression e) ts := by
  have some : ts ≠ [] := by
    rcases starts with ⟨first, rest, rfl, _⟩
    exact List.cons_ne_nil _ _
  have inversion := readNot_comparison (starts.loosen (by decide)) (readComparison_sum sum)
  exact readExpression_disjunction (readOr_start (readAnd_start inversion some) some)

theorem parentheses_begin (opening : left.kind = .symbol .leftParen) (strength : Strength)
    (ts : List Token) : (Phrase.operand strength e).Begins (left :: ts) := by
  refine ⟨left, ts, rfl, ?_⟩
  rw [opening]
  rfl

theorem name_begins {id : String} (names : name.kind = .name id) (strength : Strength)
    (ts : List Token) : (Phrase.operand strength e).Begins (name :: ts) := by
  refine ⟨name, ts, rfl, ?_⟩
  rw [names]
  rfl

theorem readExpression_parentheses (opening : left.kind = .symbol .leftParen)
    (inside : Reads n (.operand .expression e) ts) (closing : right.kind = .symbol .rightParen) :
    Reads (n + 1) (.operand .expression e) (left :: (ts ++ [right])) := by
  have negation := Reads.negation_of_primary (parentheses_begin opening _ _)
    (readPrimary_parentheses opening inside closing)
  exact .expression_of_sum (parentheses_begin opening _ _)
    (readSum_start (readProduct_start negation))

theorem readExpression_operation {id : String} {op : ArithOp} (names : name.kind = .name id)
    (free : isReserved id = false) (reads : sign.kind = .symbol op.sign)
    (opening : left.kind = .symbol .leftParen) (inside : Reads n (.operand .expression e) ts)
    (closing : right.kind = .symbol .rightParen) :
    Reads (n + 1) (.operand .expression
      (.arith sign.position.line op (.name name.position.line id) e))
      (name :: sign :: left :: (ts ++ [right])) := by
  have first : Reads n (.operand .primary (.name name.position.line id)) [name] :=
    fun _ rest _ _ => readPrimary_name _ rest names free
  have factor := readProduct_start (.negation_of_primary (name_begins names _ _) first)
  have second := Reads.negation_of_primary (parentheses_begin opening _ _)
    (readPrimary_parentheses opening inside closing)
  have sum : Reads n (.operand .sum (.arith sign.position.line op (.name name.position.line id) e))
      ([name] ++ sign :: left :: (ts ++ [right])) := by
    cases joins : op.joinsFactors with
    | true => exact readSum_start (readProduct_more factor joins reads second)
    | false => exact readSum_more (readSum_start factor) joins reads (readProduct_start second)
  exact .expression_of_sum (name_begins names _ _) sum

theorem swap_parentheses {e₀ : Expr} (starts : (Phrase.operand .expression e₀).Begins ts)
    (reads : Reads n (.operand .expression e) ts) (opening : left.kind = .symbol .leftParen)
    (closing : right.kind = .symbol .rightParen)
    (stops : (kindOf back).stops Strength.expression.looseness = true)
    (short : (left :: (ts ++ right :: back)).length ≤ bound) :
    (Parting.swap bound (· = .expression) (ts ++ back)
      (left :: (ts ++ right :: back))).Bridged := by
  have found : left :: (ts ++ right :: back) = left :: (ts ++ [right]) ++ back := by simp
  have inside : (ts ++ back).length ≤ bound := by
    simp only [List.length_cons, List.length_append] at short ⊢
    omega
  have behind : back.length ≤ bound := by
    rw [List.length_append] at inside
    omega
  refine ⟨⟨fun _ => trivial, ?_, ?_⟩, .of_none (fun parts => nomatch parts.1)
    fun parts => nomatch parts.1⟩
  · rintro n n' _ _ _ ⟨_, rfl, rfl⟩
    have second := readExpression_parentheses opening reads closing bound back stops (found ▸ short)
    rw [← found] at second
    exact (expression_steady bound).bridge (.trans AnyLines.trans) n n' false
      (reads bound back stops inside) second (.refl AnyLines.refl e) inside short behind
  · rintro _ _ ⟨_, rfl, rfl⟩
    rcases starts with ⟨first, others, rfl, begins⟩
    refine ⟨?_, ?_⟩
    · intro closes
      change first.kind = _ at closes
      rw [closes] at begins
      cases begins
    · intro closes
      change left.kind = _ at closes
      rw [opening] at closes
      cases closes

end Expressions

structure ReadsLine (n : Nat) (s : Stmt) (ts : List Token) : Prop where
  starts : (Part.simple s).Begins ts
  takes : ∀ inLoop, Takes n inLoop (.simple s) ts

section Lines

variable {n m m' bound : Nat} {e : Expr} {s s' : Stmt} {ts us back : List Token}
  {name sign stop : Token}

theorem ReadsLine.evaluate {e₀ : Expr} (spells : Spells n (.operand .expression e₀) ts)
    (reads : Reads n (.operand .expression e) ts) : ReadsLine n (.evaluate (lineOf ts) e) ts := by
  refine ⟨?_, fun _ => readSimple_evaluate spells reads⟩
  have forms : Forms n false (.simple (.evaluate 0 e₀)) ts := .evaluate spells
  exact forms.begins

theorem name_beginsLine {id : String} (names : name.kind = .name id) (ts : List Token) :
    (Part.simple s).Begins (name :: ts) := by
  refine ⟨name, ts, rfl, ?_⟩
  rw [names]
  rfl

theorem ReadsLine.assign {id : String} (names : name.kind = .name id)
    (free : isReserved id = false) (reads : sign.kind = .symbol .assign)
    (expression : Reads n (.operand .expression e) ts) :
    ReadsLine n (.assign name.position.line id e) (name :: sign :: ts) :=
  ⟨name_beginsLine names _, fun _ => readSimple_assign names free reads expression⟩

theorem ReadsLine.augment {id : String} {op : ArithOp} {symbol : Symbol}
    (names : name.kind = .name id) (free : isReserved id = false)
    (applies : op.assignSign? = some symbol) (reads : sign.kind = .symbol symbol)
    (expression : Reads n (.operand .expression e) ts) :
    ReadsLine n (.augment name.position.line id op sign.position.line e) (name :: sign :: ts) :=
  ⟨name_beginsLine names _, fun _ => readSimple_augment names free applies reads expression⟩

theorem beginsLine_goesOn (starts : (Part.simple s).Begins ts) (back : List Token) :
    NoBranch (ts ++ back) ∧ (kindOf (ts ++ back)).boundsBlock = false := by
  rcases starts with ⟨⟨kind, position, lexeme⟩, others, rfl, begins⟩
  change (kind ≠ _ ∧ kind ≠ _) ∧ kind.boundsBlock = false
  refine ⟨⟨?_, ?_⟩, ?_⟩
  · rintro rfl
    cases begins
  · rintro rfl
    cases begins
  · cases kind <;> first | rfl | cases begins

theorem swap_lines (first : ReadsLine m s ts) (second : ReadsLine m' s' us)
    (same : Stmt.Alike AnyLines s s') (ends : stop.kind = .newline)
    (short : (ts ++ stop :: back).length ≤ bound) (short' : (us ++ stop :: back).length ≤ bound) :
    (Parting.swap bound (· ≠ .expression) (ts ++ stop :: back) (us ++ stop :: back)).Bridged := by
  have behind : back.length ≤ bound := by
    simp only [List.length_cons, List.length_append] at short
    omega
  refine ⟨.of_none fun parts => parts.1 rfl, ?_, ?_, ?_, ?_, ?_⟩
  · rintro n n' inLoop _ _ loops _ _ ⟨_, rfl, rfl⟩
    obtain rfl := Parting.swap_loops loops
    exact .atPlace ((statement_steady bound).bridge (.trans AnyLines.trans) n n' inLoop
      (readStatement_simple first.starts (first.takes inLoop) ends short)
      (readStatement_simple second.starts (second.takes inLoop) ends short') same short short'
      behind)
  · rintro n n' inLoop _ _ loops _ _ ⟨_, rfl, rfl⟩
    obtain rfl := Parting.swap_loops loops
    exact .atPlace ((block_steady bound).bridge (.trans AnyLines.trans) n n' inLoop
      (readBlock_simple first.starts (first.takes inLoop) ends short)
      (readBlock_simple second.starts (second.takes inLoop) ends short') same short short' behind)
  · rintro n n' inLoop inLoop' k _ _ _ _ ⟨place, rfl, rfl⟩ _
    have takes : Takes n inLoop (.branches none) [] := readBranches_none
    have takes' : Takes n' inLoop' (.branches none) [] := readBranches_none
    have none := takes bound _ k (beginsLine_goesOn first.starts (stop :: back)).1 short
      (Nat.zero_le _)
    have none' := takes' bound _ k (beginsLine_goesOn second.starts (stop :: back)).1 short'
      (Nat.zero_le _)
    rw [List.nil_append] at none none'
    change Agree _ _ (readBranches (innerAt bound n).expression (suiteAt bound n inLoop) k _)
      (readBranches (innerAt bound n').expression (suiteAt bound n' inLoop') k _)
    rw [none, none']
    exact .ok ⟨.none, .inr ⟨place, rfl, rfl⟩⟩
  · rintro _ _ ⟨_, rfl, rfl⟩
    exact ⟨short, short'⟩
  · rintro _ _ ⟨_, rfl, rfl⟩
    exact ⟨(beginsLine_goesOn first.starts _).2, (beginsLine_goesOn second.starts _).2⟩

end Lines

section Suites

variable {m bound : Nat} {inLoop : Bool} {s : Stmt} {ts back : List Token}
  {stop newline indent dedent : Token}

/-- A line has the same form inside a loop and outside, unless it has to be in one and is
refused. -/
theorem Forms.elsewhere (forms : Forms m inLoop (.simple s) ts) (inLoop' : Bool) :
    Forms m inLoop' (.simple s) ts ∨ ∀ (expression : TokenReader Expr) rest,
      ∃ refusal, readSimple expression inLoop' (ts ++ rest) = .error refusal := by
  cases forms with
  | pass reads => exact .inl (.pass reads)
  | evaluate expression => exact .inl (.evaluate expression)
  | assign names free reads expression => exact .inl (.assign names free reads expression)
  | augment names free applies reads expression =>
      exact .inl (.augment names free applies reads expression)
  | @breakLoop _ _ word reads =>
      cases inLoop' with
      | true => exact .inl (.breakLoop reads)
      | false =>
          refine .inr fun expression rest => ?_
          have known : kindOf (word :: rest) = .keyword .break := reads
          rw [List.singleton_append, readSimple, known]
          exact ⟨_, rfl⟩
  | @continueLoop _ _ word reads =>
      cases inLoop' with
      | true => exact .inl (.continueLoop reads)
      | false =>
          refine .inr fun expression rest => ?_
          have known : kindOf (word :: rest) = .keyword .continue := reads
          rw [List.singleton_append, readSimple, known]
          exact ⟨_, rfl⟩

theorem swap_block (forms : Forms m inLoop (.simple s) ts) (ends : stop.kind = .newline)
    (parts : newline.kind = .newline) (opens : indent.kind = .indent)
    (closes : dedent.kind = .dedent)
    (short : (newline :: indent :: (ts ++ stop :: dedent :: back)).length ≤ bound) :
    (Parting.swap bound (· = .suite) (ts ++ stop :: back)
      (newline :: indent :: (ts ++ stop :: dedent :: back))).Bridged := by
  have inside : (ts ++ stop :: back).length ≤ bound := by
    simp only [List.length_cons, List.length_append] at short ⊢
    omega
  have behind : back.length ≤ bound := by
    simp only [List.length_cons, List.length_append] at inside
    omega
  refine ⟨.of_none fun parts => (nomatch parts.1), .of_suite (fun parts => nomatch parts.1) ?_⟩
  rintro n n' inLoop _ _ loops _ _ ⟨_, rfl, rfl⟩
  obtain rfl := Parting.swap_loops loops
  rcases forms.elsewhere inLoop with forms | refused
  · obtain ⟨s', _, takes⟩ := forms.taken
    have starts : (Part.simple s').Begins ts := forms.begins
    have found : ts ++ stop :: dedent :: back = ts ++ [stop] ++ [] ++ dedent :: back := by simp
    have block : Takes m inLoop (.statements (.seq s' .skip)) (ts ++ [stop] ++ []) :=
      readStatements_more (.line forms ends) (readStatement_line starts takes ends) .nothing
        readStatements_nothing
    rw [found] at short ⊢
    exact .atPlace ((block_steady bound).bridge (.trans AnyLines.trans) n n' inLoop
      (readBlock_simple starts takes ends inside)
      (readBlock_indented parts opens block closes short)
      (Stmt.Alike.refl AnyLines.refl s').seq_skip inside short behind)
  · obtain ⟨refusal, refused⟩ := refused (innerAt bound n).expression (stop :: back)
    change Agree True _ (readBlock bound (innerAt bound n).expression (suiteAt bound n) inLoop _) _
    rw [readBlock_line forms.begins, readLine, refused]
    exact .refused trivial

end Suites

theorem Forms.inside {n : Nat} {inLoop : Bool} {part : Part} {ts : List Token}
    (forms : Forms n inLoop part ts) : Forms n true part ts := by
  induction forms with
  | pass reads => exact .pass reads
  | breakLoop reads => exact .breakLoop reads
  | continueLoop reads => exact .continueLoop reads
  | evaluate expression => exact .evaluate expression
  | assign names free reads expression => exact .assign names free reads expression
  | augment names free applies reads expression =>
      exact .augment names free applies reads expression
  | line _ ends ih => exact .line ih ends
  | conditional reads expression _ _ ih ih' => exact .conditional reads expression ih ih'
  | noBranch => exact .noBranch
  | elifBranch reads expression _ _ ih ih' => exact .elifBranch reads expression ih ih'
  | elseBranch reads _ ih => exact .elseBranch reads ih
  | whileLoop reads expression suite => exact .whileLoop reads expression suite
  | forLoop reads names free between expression suite =>
      exact .forLoop reads names free between expression suite
  | inline reads _ ends ih => exact .inline reads ih ends
  | block reads ends opens _ closes ih => exact .block reads ends opens ih closes
  | nothing => exact .nothing
  | more _ _ ih ih' => exact .more ih ih'

namespace BranchesAlike

variable {R : Nat → Nat → Prop} {branches others last : Option (Nat × Stmt)}

theorem refl (reflR : ∀ n, R n n) (branches : Option (Nat × Stmt)) :
    BranchesAlike R branches branches := by
  cases branches with
  | none => exact .none
  | some branch => exact .some (reflR _) (.refl reflR _)

theorem trans (transR : ∀ a b c, R a b → R b c → R a c) (first : BranchesAlike R branches others)
    (second : BranchesAlike R others last) : BranchesAlike R branches last := by
  cases first with
  | none => exact second
  | some lines bodies =>
      cases second with
      | some lines' bodies' =>
          exact .some (transR _ _ _ lines lines') (bodies.trans transR bodies')

end BranchesAlike

section Branches

variable {m n d k bound : Nat} {inLoop : Bool} {b : Option (Nat × Stmt)}
  {ts back : List Token} {first elif «else» colon newline indent «if» dedent : Token}

theorem Forms.branches_elsewhere (forms : Forms m inLoop (.branches b) ts)
    (noBranch : NoBranch back) (laid : LaidOut d (ts ++ back)) {inLoop' : Bool}
    (short : (ts ++ back).length ≤ bound) (within : (ts ++ back).length ≤ k)
    {found : Option (Nat × Stmt)} {rest : List Token}
    (read : readBranches (innerAt bound n).expression (suiteAt bound n inLoop') k (ts ++ back) =
      .ok (found, rest)) : ∃ b', Forms n inLoop' (.branches b') ts := by
  obtain ⟨used, same, ⟨b', forms'⟩, _⟩ :=
    readBranches_takes (suiteAt_takes bound n inLoop') k _ _ _ _ short laid read
  obtain ⟨_, _, takes⟩ := forms.inside.taken
  have left := takes bound back k noBranch short (by rw [List.length_append] at within; omega)
  have agree : Agree True (ReadAlike SameKinds (BranchesAlike AnyLines))
      (readBranches (innerAt bound n).expression (suiteAt bound n inLoop') k (ts ++ back))
      (readBranches (innerAt bound m).expression (suiteAt bound m true) k (ts ++ back)) :=
    branches_steady bound k n m (fun _ => rfl) (Nat.le_min.mpr ⟨short, within⟩)
  rw [read, left] at agree
  cases agree with
  | ok results =>
      have behind : rest.length = back.length := results.rest.length_eq
      obtain ⟨rfl, _⟩ := List.append_inj' same behind.symm
      exact ⟨b', forms'⟩

/-- The tokens of an `else` with a block that holds these tokens only. -/
structure ElseBlock («else» colon newline indent dedent : Token) : Prop where
  other : «else».kind = .keyword .else
  colon : colon.kind = .symbol .colon
  newline : newline.kind = .newline
  opens : indent.kind = .indent
  closes : dedent.kind = .dedent

theorem exists_elseBlock (forms : Forms n inLoop (.branches b) (elif :: ts))
    (reads : elif.kind = .keyword .elif) (begins : «if».kind = .keyword .if)
    (block : ElseBlock «else» colon newline indent dedent) :
    ∃ b₁ b₂, BranchesAlike AnyLines b₁ b₂ ∧ Takes n inLoop (.branches b₁) (elif :: ts) ∧
      Takes (n + 1) inLoop (.branches b₂)
        («else» :: colon :: newline :: indent :: («if» :: ts ++ [dedent])) := by
  cases forms with
  | elseBranch reads' => cases reads.symm.trans reads'
  | @elifBranch _ _ _ _ test₀ body₀ rest₀ _ ts us vs _ spells suite branches =>
      obtain ⟨test, _, readsTest⟩ := spells.reading
      obtain ⟨body, _, takesBody⟩ := suite.taken
      obtain ⟨later, _, takesLater⟩ := branches.taken
      have guarded : Guarded n inLoop test body later ts us vs :=
        ⟨readsTest, kindOf_suite suite, takesBody, takesLater⟩
      have statement : Forms n inLoop (.statement (conditional 0 test₀ body₀ rest₀))
          («if» :: (ts ++ (us ++ vs))) := .conditional begins spells suite branches
      have statements := readStatements_more statement (readStatement_conditional begins guarded)
        .nothing readStatements_nothing
      rw [List.append_nil] at statements
      refine ⟨_, _, .some trivial ?_, readBranches_elif reads guarded,
        readBranches_else block.other
          (suiteAt_block block.colon block.newline block.opens statements block.closes)⟩
      have same : Stmt.Alike AnyLines (conditional elif.position.line test body later)
          (conditional «if».position.line test body later) :=
        BranchesAlike.conditional (.refl AnyLines.refl later) trivial (.refl AnyLines.refl test)
          (.refl AnyLines.refl body)
      exact same.seq_skip

theorem swap_branches (forms : Forms m inLoop (.branches b) (elif :: ts))
    (noBranch : NoBranch back) (laid : LaidOut d (elif :: ts ++ back))
    (reads : elif.kind = .keyword .elif) (begins : «if».kind = .keyword .if)
    (block : ElseBlock «else» colon newline indent dedent)
    (short : («else» :: colon :: newline :: indent :: «if» :: (ts ++ dedent :: back)).length ≤
      bound) :
    (Parting.swap bound (· = .statement) (elif :: ts ++ back)
      («else» :: colon :: newline :: indent :: «if» :: (ts ++ dedent :: back))).Bridged := by
  have inside : (elif :: ts ++ back).length ≤ bound := by
    simp only [List.length_cons, List.length_append] at short ⊢
    omega
  have behind : back.length ≤ bound := by
    simp only [List.length_append] at inside
    omega
  refine ⟨.of_none fun parts => (nomatch parts.1), ?_, fun _ _ _ _ parts => (nomatch parts.1), ?_,
    ?_, ?_⟩
  · rintro n n' inLoop inLoop' _ _ _ _ ⟨_, rfl, rfl⟩
    refine .unless_refused trivial fun found read => ?_
    -- No statement begins with a branch.
    obtain ⟨used, same, ⟨s, formed⟩, _⟩ :=
      readStatement_takes (suiteAt_takes bound n) _ _ _ _ inside laid read
    obtain ⟨first, others, rfl, starts⟩ := formed.begins
    obtain ⟨rfl, _⟩ := List.cons_eq_cons.mp same
    rw [reads] at starts
    cases starts
  · rintro n n' inLoop inLoop' k _ _ _ loops ⟨_, rfl, rfl⟩ within
    obtain rfl := Parting.swap_loops loops
    refine .unless_refused trivial fun found read => ?_
    obtain ⟨b', formed⟩ := forms.branches_elsewhere noBranch laid inside within.1 read
    obtain ⟨b₁, b₂, same, takes, takes'⟩ := exists_elseBlock formed reads begins block
    have rejoin : «else» :: colon :: newline :: indent :: «if» :: (ts ++ dedent :: back) =
        «else» :: colon :: newline :: indent :: («if» :: ts ++ [dedent]) ++ back := by simp
    rw [rejoin] at short within ⊢
    have read := takes bound back k noBranch inside
      (within.1.trans' (List.length_append ▸ Nat.le_add_right _ _))
    have read' := takes' bound back k noBranch short
      (within.2.trans' (List.length_append ▸ Nat.le_add_right _ _))
    exact .atPlace ((branches_steady bound k).bridge (.trans AnyLines.trans) n n' inLoop read read'
      same (Nat.le_min.mpr ⟨inside, within.1⟩) (Nat.le_min.mpr ⟨short, within.2⟩) behind)
  · rintro _ _ ⟨_, rfl, rfl⟩
    exact ⟨inside, short⟩
  · rintro _ _ ⟨_, rfl, rfl⟩
    change elif.kind.boundsBlock = false ∧ «else».kind.boundsBlock = false
    rw [reads, block.other]
    exact ⟨rfl, rfl⟩

end Branches

end LessonScript
