import LessonScript.Proofs.ExprReading

/-!
Every form of a statement is read, as a statement with the same meaning.

The tokens of a part show where the part ends: a simple statement stands in front of the end of
its line, a block in front of its dedent, and a conditional in front of anything that is not
another branch.  As with expressions, which tree is read depends on these tokens alone (`Takes`).
-/

namespace LessonScript

open TokenReader ExprReader StmtReader

/-! ### First tokens -/

def TokenKind.beginsLine : TokenKind → Bool
  | .keyword .pass | .keyword .break | .keyword .continue => true
  | kind => kind.begins Strength.expression.looseness

def TokenKind.beginsStatement : TokenKind → Bool
  | .keyword .if | .keyword .while | .keyword .for => true
  | kind => kind.beginsLine

theorem TokenKind.beginsLine_of_begins {kind : TokenKind}
    (begins : kind.begins Strength.expression.looseness = true) : kind.beginsLine = true := by
  unfold TokenKind.beginsLine
  split
  · rfl
  · rfl
  · rfl
  · exact begins

theorem TokenKind.beginsStatement_of_line {kind : TokenKind} (begins : kind.beginsLine = true) :
    kind.beginsStatement = true := by
  unfold TokenKind.beginsStatement
  split
  · rfl
  · rfl
  · rfl
  · exact begins

def Part.Begins : Part → List Token → Prop
  | .simple _, ts => ∃ first rest, ts = first :: rest ∧ first.kind.beginsLine = true
  | .statement _, ts => ∃ first rest, ts = first :: rest ∧ first.kind.beginsStatement = true
  | .statements _, ts =>
    ts = [] ∨ ∃ first rest, ts = first :: rest ∧ first.kind.beginsStatement = true
  | .suite _, ts => ∃ first rest, ts = first :: rest ∧ first.kind = .symbol .colon
  | .branches _, _ => True

theorem Forms.begins {n : Nat} {inLoop : Bool} {part : Part} {ts : List Token}
    (forms : Forms n inLoop part ts) : part.Begins ts := by
  have word {kind : TokenKind} {t : Token} {f : TokenKind → Bool} (reads : t.kind = kind)
      (begins : f kind = true) : f t.kind = true := by
    rw [reads]
    exact begins
  induction forms with
  | pass reads | breakLoop reads | continueLoop reads => exact ⟨_, [], rfl, word reads rfl⟩
  | evaluate expression =>
      rcases expression.begins with ⟨first, rest, same, begins⟩
      exact ⟨first, rest, same, TokenKind.beginsLine_of_begins begins⟩
  | assign names | augment names => exact ⟨_, _, rfl, word names rfl⟩
  | line _ _ ih =>
      rcases ih with ⟨first, rest, rfl, begins⟩
      exact ⟨first, rest ++ _, rfl, TokenKind.beginsStatement_of_line begins⟩
  | conditional reads | whileLoop reads | forLoop reads => exact ⟨_, _, rfl, word reads rfl⟩
  | noBranch | elifBranch | elseBranch => exact trivial
  | inline reads | block reads => exact ⟨_, _, rfl, reads⟩
  | nothing => exact .inl rfl
  | more _ _ ih _ =>
      rcases ih with ⟨first, rest, rfl, begins⟩
      exact .inr ⟨first, rest ++ _, rfl, begins⟩

/-! ### Behind an expression -/

/-- The tokens do not go on with another branch of a conditional. -/
def NoBranch (tokens : List Token) : Prop :=
  kindOf tokens ≠ .keyword .elif ∧ kindOf tokens ≠ .keyword .else

theorem assignment?_eq_none {tokens : List Token}
    (noAssignment : ∀ s : Symbol, kindOf tokens = .symbol s → s.isAssignment = false) :
    assignment? tokens = none := by
  unfold assignment?
  split
  · rename_i s same
    rw [noAssignment s same]
    rfl
  · rfl

theorem assignment?_of_inExpression {tokens : List Token}
    (inside : (kindOf tokens).inExpression = true) : assignment? tokens = none := by
  apply assignment?_eq_none
  intro s same
  rw [same] at inside
  cases s <;> first | rfl | cases inside

theorem assignment?_of_newline {tokens : List Token} (ends : kindOf tokens = .newline) :
    assignment? tokens = none := by
  apply assignment?_eq_none
  intro s same
  rw [ends] at same
  cases same

theorem assignSign?_eq {op : ArithOp} {symbol : Symbol} (applies : op.assignSign? = some symbol) :
    symbol.isAssignment = true ∧ augmentOp? symbol = some op := by
  cases op <;> cases applies <;> exact ⟨rfl, rfl⟩

/-! ### What a reader makes of a form -/

def BranchesSame : Option (Nat × Stmt) → Option (Nat × Stmt) → Prop
  | none, none => True
  | some (_, s), some (_, s') => s.Same s'
  | _, _ => False

theorem conditional_same {line line' : Nat} {test test' : Expr} {body body' : Stmt}
    {rest rest' : Option (Nat × Stmt)} (sameTest : test.Same test') (sameBody : body.Same body')
    (sameRest : BranchesSame rest rest') :
    (conditional line test body rest).Same (conditional line' test' body' rest') := by
  cases rest with
  | none =>
      cases rest' with
      | none => exact Stmt.Same.ifThen sameTest sameBody
      | some branch => exact sameRest.elim
  | some branch =>
      cases rest' with
      | none => exact sameRest.elim
      | some branch' => exact Stmt.Same.ifElse sameTest sameBody sameRest

/-- What the readers that may open so many levels make of the tokens: just this part. -/
def Takes (n : Nat) (inLoop : Bool) : Part → List Token → Prop
  | .simple s, ts =>
    ∀ bound rest, kindOf rest = .newline → (ts ++ rest).length ≤ bound →
      readSimple (innerAt bound n).expression inLoop (ts ++ rest) = .ok (s, rest)
  | .statement s, ts =>
    ∀ bound rest, NoBranch rest → (ts ++ rest).length ≤ bound →
      readStatement bound (innerAt bound n).expression (suiteAt bound n) inLoop (ts ++ rest) =
        .ok (s, rest)
  | .statements s, ts =>
    ∀ bound rest (ends : TokenKind → Bool) k,
      (∀ kind, ends kind = true → kind = .dedent ∨ kind = .endOfInput) →
      ends (kindOf rest) = true → (ts ++ rest).length ≤ bound → ts.length ≤ k →
      readStatements (readStatement bound (innerAt bound n).expression (suiteAt bound n) inLoop)
        ends k (ts ++ rest) = .ok (s, rest)
  | .suite s, ts =>
    ∀ bound rest, (ts ++ rest).length ≤ bound →
      suiteAt bound n inLoop (ts ++ rest) = .ok (s, rest)
  | .branches b, ts =>
    ∀ bound rest k, NoBranch rest → (ts ++ rest).length ≤ bound → ts.length ≤ k →
      readBranches (innerAt bound n).expression (suiteAt bound n inLoop) k (ts ++ rest) =
        .ok (b, rest)

section Readers

variable {n : Nat} {inLoop : Bool} {e test : Expr} {s body : Stmt}
  {branches : Option (Nat × Stmt)} {ts us vs : List Token} {word name sign stop : Token}

theorem stops_of_newline {rest : List Token} (ends : kindOf rest = .newline) (looseness : Nat) :
    (kindOf rest).stops looseness = true := by
  rw [ends]
  rfl

theorem stops_of_colon {rest : List Token} (ends : kindOf rest = .symbol .colon) (looseness : Nat) :
    (kindOf rest).stops looseness = true := by
  rw [ends]
  rfl

theorem readSimple_evaluation (expression : TokenReader Expr)
    (spells : Spells n (.operand .expression e) ts) {rest : List Token}
    (newline : kindOf rest = .newline) :
    readSimple expression inLoop (ts ++ rest) = readEvaluation expression (ts ++ rest) := by
  have inside := spells.inExpression
  rcases spells.begins with ⟨⟨kind, position, lexeme⟩, others, rfl, begins⟩
  have noAssignment : assignment? (others ++ rest) = none := by
    cases others with
    | nil => exact assignment?_of_newline newline
    | cons second others =>
        exact assignment?_of_inExpression (inside second (by simp))
  unfold readSimple
  split
  case h_1 word | h_2 word | h_3 word =>
    change kind = _ at word
    subst word
    cases begins
  case h_4 =>
    dsimp only [List.cons_append, List.tail_cons]
    rw [noAssignment]
  case h_5 => rfl

theorem readSimple_evaluate {e₀ : Expr} (spells : Spells n (.operand .expression e₀) ts)
    (expression : Reads n (.operand .expression e) ts) :
    Takes n inLoop (.simple (.evaluate (lineOf ts) e)) ts := by
  intro bound rest newline bounded
  have read := expression bound rest (stops_of_newline newline _) bounded
  have line : lineOf (ts ++ rest) = lineOf ts := by
    obtain ⟨first, others, rfl⟩ := List.exists_cons_of_ne_nil spells.ne_nil
    rfl
  dsimp only at read
  rw [readSimple_evaluation _ spells newline, readEvaluation, read, line]
  change (if (assignment? rest).isSome = true then _ else _) = _
  rw [assignment?_of_newline newline]
  rfl

theorem readSimple_assignment (expression : TokenReader Expr) {id : String} {symbol : Symbol}
    (names : name.kind = .name id) (free : isReserved id = false)
    (reads : sign.kind = .symbol symbol) (assigns : symbol.isAssignment = true)
    (rest : List Token) :
    readSimple expression inLoop (name :: sign :: rest) =
      readAssignment expression name.position.line id symbol (sign :: rest) := by
  have found : assignment? (sign :: rest) = some symbol := by
    have marks : kindOf (sign :: rest) = .symbol symbol := reads
    rw [assignment?, marks]
    exact if_pos assigns
  have known : kindOf (name :: sign :: rest) = .name id := names
  rw [readSimple, known]
  dsimp only [List.tail_cons]
  rw [found]
  dsimp only
  rw [free]
  rfl

theorem readSimple_assign {id : String} (names : name.kind = .name id)
    (free : isReserved id = false) (reads : sign.kind = .symbol .assign)
    (expression : Reads n (.operand .expression e) ts) :
    Takes n inLoop (.simple (.assign name.position.line id e)) (name :: sign :: ts) := by
  intro bound rest newline bounded
  simp only [List.cons_append, List.length_cons] at bounded
  have read := expression bound rest (stops_of_newline newline _) (by omega)
  dsimp only at read
  rw [List.cons_append, List.cons_append, readSimple_assignment _ names free reads rfl,
    readAssignment]
  dsimp only [List.tail_cons]
  rw [read]
  rfl

theorem readSimple_augment {id : String} {op : ArithOp} {symbol : Symbol}
    (names : name.kind = .name id) (free : isReserved id = false)
    (applies : op.assignSign? = some symbol) (reads : sign.kind = .symbol symbol)
    (expression : Reads n (.operand .expression e) ts) :
    Takes n inLoop (.simple (.augment name.position.line id op sign.position.line e))
      (name :: sign :: ts) := by
  intro bound rest newline bounded
  simp only [List.cons_append, List.length_cons] at bounded
  obtain ⟨assigns, augments⟩ := assignSign?_eq applies
  have read := expression bound rest (stops_of_newline newline _) (by omega)
  dsimp only at read
  rw [List.cons_append, List.cons_append, readSimple_assignment _ names free reads assigns,
    readAssignment]
  dsimp only [List.tail_cons]
  rw [read]
  dsimp only [bind, Except.bind]
  rw [augments]
  rfl

theorem readLine_simple (simple : Takes n inLoop (.simple s) ts) (ends : stop.kind = .newline)
    {bound : Nat} {rest : List Token} (bounded : (ts ++ stop :: rest).length ≤ bound) :
    readLine (innerAt bound n).expression inLoop (ts ++ stop :: rest) = .ok (s, rest) := by
  have newline : kindOf (stop :: rest) = .newline := ends
  rw [readLine, simple bound (stop :: rest) ends bounded]
  dsimp only [bind, Except.bind]
  rw [readLineEnd, newline]
  rfl

theorem readStatement_simple (starts : (Part.simple s).Begins ts)
    (simple : Takes n inLoop (.simple s) ts) (ends : stop.kind = .newline) {bound : Nat}
    {rest : List Token} (bounded : (ts ++ stop :: rest).length ≤ bound) :
    readStatement bound (innerAt bound n).expression (suiteAt bound n) inLoop (ts ++ stop :: rest) =
      .ok (s, rest) := by
  rw [← readLine_simple simple ends bounded]
  rcases starts with ⟨⟨kind, position, lexeme⟩, others, rfl, begins⟩
  unfold readStatement
  split
  case h_1 word | h_2 word | h_3 word =>
    change kind = _ at word
    subst word
    cases begins
  case h_4 => rfl

theorem readStatement_line (starts : (Part.simple s).Begins ts)
    (simple : Takes n inLoop (.simple s) ts) (ends : stop.kind = .newline) :
    Takes n inLoop (.statement s) (ts ++ [stop]) := by
  intro bound rest _ bounded
  have found : ts ++ [stop] ++ rest = ts ++ stop :: rest := by simp
  rw [found] at bounded ⊢
  exact readStatement_simple starts simple ends bounded

theorem kindOf_suite {n : Nat} (forms : Forms n inLoop (.suite s) us) (rest : List Token) :
    kindOf (us ++ rest) = .symbol .colon := by
  rcases forms.begins with ⟨first, others, rfl, colon⟩
  exact colon

structure Guarded (n : Nat) (inLoop : Bool) (test : Expr) (body : Stmt)
    (branches : Option (Nat × Stmt)) (ts us vs : List Token) : Prop where
  test : Reads n (.operand .expression test) ts
  colon : ∀ rest, kindOf (us ++ rest) = .symbol .colon
  body : Takes n inLoop (.suite body) us
  branches : Takes n inLoop (.branches branches) vs

theorem Guarded.read (guarded : Guarded n inLoop test body branches ts us vs) {bound : Nat}
    {rest : List Token} {k : Nat} (noBranch : NoBranch rest)
    (bounded : (ts ++ (us ++ (vs ++ rest))).length ≤ bound) (within : vs.length ≤ k) :
    (innerAt bound n).expression (ts ++ (us ++ (vs ++ rest))) = .ok (test, us ++ (vs ++ rest)) ∧
      suiteAt bound n inLoop (us ++ (vs ++ rest)) = .ok (body, vs ++ rest) ∧
      readBranches (innerAt bound n).expression (suiteAt bound n inLoop) k (vs ++ rest) =
        .ok (branches, rest) := by
  have inside : (us ++ (vs ++ rest)).length ≤ bound := by
    rw [List.length_append] at bounded
    omega
  have behind : (vs ++ rest).length ≤ bound := by
    rw [List.length_append] at inside
    omega
  exact ⟨guarded.test bound _ (stops_of_colon (guarded.colon _) _) bounded,
    guarded.body bound _ inside, guarded.branches bound rest k noBranch behind within⟩

theorem readStatement_conditional (reads : word.kind = .keyword .if)
    (guarded : Guarded n inLoop test body branches ts us vs) :
    Takes n inLoop (.statement (conditional word.position.line test body branches))
      (word :: (ts ++ (us ++ vs))) := by
  intro bound rest noBranch bounded
  have found : word :: (ts ++ (us ++ vs)) ++ rest = word :: (ts ++ (us ++ (vs ++ rest))) := by simp
  rw [found] at bounded ⊢
  have within : vs.length ≤ bound := by
    simp only [List.length_cons, List.length_append] at bounded
    omega
  obtain ⟨readTest, readBody, readRest⟩ :=
    guarded.read noBranch (Nat.le_of_succ_le bounded) within
  have known : kindOf (word :: (ts ++ (us ++ (vs ++ rest)))) = .keyword .if := reads
  rw [readStatement, known]
  change readIf _ _ _ _ = _
  rw [readIf]
  dsimp only [List.tail_cons]
  rw [readTest]
  change (suiteAt bound n inLoop (us ++ (vs ++ rest))).bind _ = _
  rw [readBody]
  change (readBranches _ _ bound (vs ++ rest)).bind _ = _
  rw [readRest]
  rfl

theorem readBranches_elif (reads : word.kind = .keyword .elif)
    (guarded : Guarded n inLoop test body branches ts us vs) :
    Takes n inLoop (.branches (some (word.position.line,
      conditional word.position.line test body branches))) (word :: (ts ++ (us ++ vs))) := by
  intro bound rest k noBranch bounded within
  have found : word :: (ts ++ (us ++ vs)) ++ rest = word :: (ts ++ (us ++ (vs ++ rest))) := by simp
  rw [found] at bounded ⊢
  simp only [List.length_cons, List.length_append] at within
  obtain ⟨k, rfl⟩ : ∃ m, k = m + 1 := ⟨k - 1, by omega⟩
  obtain ⟨readTest, readBody, readRest⟩ :=
    guarded.read noBranch (Nat.le_of_succ_le bounded) (by omega : vs.length ≤ k)
  have known : kindOf (word :: (ts ++ (us ++ (vs ++ rest)))) = .keyword .elif := reads
  rw [readBranches, known]
  dsimp only [List.tail_cons]
  rw [readTest]
  change (suiteAt bound n inLoop (us ++ (vs ++ rest))).bind _ = _
  rw [readBody]
  change (readBranches _ _ k (vs ++ rest)).bind _ = _
  rw [readRest]
  rfl

theorem readBranches_else (reads : word.kind = .keyword .else)
    (suite : Takes n inLoop (.suite body) us) :
    Takes n inLoop (.branches (some (word.position.line, body))) (word :: us) := by
  intro bound rest k _ bounded within
  simp only [List.cons_append, List.length_cons] at bounded within
  obtain ⟨k, rfl⟩ : ∃ m, k = m + 1 := ⟨k - 1, by omega⟩
  have known : kindOf (word :: (us ++ rest)) = .keyword .else := reads
  rw [List.cons_append, readBranches, known]
  change (suiteAt bound n inLoop (us ++ rest)).bind _ = _
  rw [suite bound rest (by omega)]
  rfl

theorem readBranches_none : Takes n inLoop (.branches none) [] := by
  intro bound rest k noBranch _ _
  cases k with
  | zero => rfl
  | succ k =>
      rw [List.nil_append, readBranches]
      dsimp only
      split
      · rename_i elif
        exact absurd elif noBranch.1
      · rename_i «else»
        exact absurd «else» noBranch.2
      · rfl

theorem readStatement_while (reads : word.kind = .keyword .while)
    (condition : Reads n (.operand .expression test) ts) {body₀ : Stmt}
    (forms : Forms n true (.suite body₀) us) (suite : Takes n true (.suite body) us) :
    Takes n inLoop (.statement (.whileLoop word.position.line test body)) (word :: (ts ++ us)) := by
  intro bound rest _ bounded
  simp only [List.cons_append, List.length_cons, List.length_append] at bounded
  have readTest := condition bound (us ++ rest) (stops_of_colon (kindOf_suite forms _) _)
    (by simp; omega)
  have readBody := suite bound rest (by simp; omega)
  have known : kindOf (word :: (ts ++ (us ++ rest))) = .keyword .while := reads
  dsimp only at readTest
  rw [List.cons_append, List.append_assoc, readStatement, known]
  change readWhile _ _ _ = _
  rw [readWhile]
  dsimp only [List.tail_cons]
  rw [readTest]
  change (suiteAt bound n true (us ++ rest)).bind _ = _
  rw [readBody]
  rfl

theorem readStatement_for {id : String} {«in» : Token} (reads : word.kind = .keyword .for)
    (names : name.kind = .name id) (free : isReserved id = false)
    (between : «in».kind = .keyword .in) (iterable : Reads n (.operand .expression e) ts)
    {body₀ : Stmt} (forms : Forms n true (.suite body₀) us)
    (suite : Takes n true (.suite body) us) :
    Takes n inLoop (.statement (.forLoop word.position.line id e body))
      (word :: name :: «in» :: (ts ++ us)) := by
  intro bound rest _ bounded
  simp only [List.cons_append, List.length_cons, List.length_append] at bounded
  have read := iterable bound (us ++ rest) (stops_of_colon (kindOf_suite forms _) _)
    (by simp; omega)
  have readBody := suite bound rest (by simp; omega)
  have found : word :: name :: «in» :: (ts ++ us) ++ rest =
      word :: name :: «in» :: (ts ++ (us ++ rest)) := by simp
  have known : kindOf (word :: name :: «in» :: (ts ++ (us ++ rest))) = .keyword .for := reads
  have knownName : kindOf (name :: «in» :: (ts ++ (us ++ rest))) = .name id := names
  dsimp only at read
  rw [found, readStatement, known]
  change readFor _ _ _ = _
  rw [readFor]
  dsimp only [List.tail_cons]
  rw [knownName]
  change (if isReserved id = true then _ else _) = _
  rw [free]
  change (expect (.keyword .in) («in» :: (ts ++ (us ++ rest)))).bind _ = _
  rw [expect_kind _ between]
  change ((innerAt bound n).expression (ts ++ (us ++ rest))).bind _ = _
  rw [read]
  change (suiteAt bound n true (us ++ rest)).bind _ = _
  rw [readBody]
  rfl

theorem readBlock_line (starts : (Part.simple s).Begins ts) (bound : Nat) (rest : List Token) :
    readBlock bound (innerAt bound n).expression (suiteAt bound n) inLoop (ts ++ rest) =
      readLine (innerAt bound n).expression inLoop (ts ++ rest) := by
  rcases starts with ⟨first, others, rfl, begins⟩
  have noNewline : first.kind ≠ .newline := by
    intro newline
    rw [newline] at begins
    cases begins
  rw [readBlock]
  exact if_neg noNewline

theorem readBlock_simple (starts : (Part.simple s).Begins ts)
    (simple : Takes n inLoop (.simple s) ts) (ends : stop.kind = .newline) {bound : Nat}
    {rest : List Token} (bounded : (ts ++ stop :: rest).length ≤ bound) :
    readBlock bound (innerAt bound n).expression (suiteAt bound n) inLoop (ts ++ stop :: rest) =
      .ok (s, rest) := by
  rw [readBlock_line starts, readLine_simple simple ends bounded]

theorem suiteAt_inline {colon : Token} (starts : (Part.simple s).Begins ts)
    (reads : colon.kind = .symbol .colon) (simple : Takes n inLoop (.simple s) ts)
    (ends : stop.kind = .newline) :
    Takes (n + 1) inLoop (.suite s) (colon :: (ts ++ [stop])) := by
  intro bound rest bounded
  have found : colon :: (ts ++ [stop]) ++ rest = colon :: (ts ++ stop :: rest) := by simp
  rw [found] at bounded ⊢
  rw [suiteAt, expect_kind _ reads]
  exact readBlock_simple starts simple ends (Nat.le_of_succ_le bounded)

theorem readBlock_indented {newline indent dedent : Token} (ends : newline.kind = .newline)
    (opens : indent.kind = .indent) (statements : Takes n inLoop (.statements s) ts)
    (closes : dedent.kind = .dedent) {bound : Nat} {rest : List Token}
    (bounded : (newline :: indent :: (ts ++ dedent :: rest)).length ≤ bound) :
    readBlock bound (innerAt bound n).expression (suiteAt bound n) inLoop
      (newline :: indent :: (ts ++ dedent :: rest)) = .ok (s, rest) := by
  simp only [List.length_cons, List.length_append] at bounded
  have closed : endsBlock dedent.kind = true := by
    rw [closes]
    rfl
  have closing (kind : TokenKind) (ends : endsBlock kind = true) :
      kind = .dedent ∨ kind = .endOfInput := by
    simpa [endsBlock] using ends
  have read := statements bound (dedent :: rest) endsBlock bound closing closed (by simp; omega)
    (by omega)
  rw [readBlock]
  change (if newline.kind = _ then (if indent.kind = _ then _ else _) else _) = _
  rw [if_pos ends, if_pos opens]
  dsimp only [List.tail_cons]
  rw [read]
  change Except.ok (s, if dedent.kind = _ then _ else _) = _
  rw [if_pos closes]
  rfl

theorem suiteAt_block {colon newline indent dedent : Token} (reads : colon.kind = .symbol .colon)
    (ends : newline.kind = .newline) (opens : indent.kind = .indent)
    (statements : Takes n inLoop (.statements s) ts) (closes : dedent.kind = .dedent) :
    Takes (n + 1) inLoop (.suite s) (colon :: newline :: indent :: (ts ++ [dedent])) := by
  intro bound rest bounded
  have found : colon :: newline :: indent :: (ts ++ [dedent]) ++ rest =
      colon :: newline :: indent :: (ts ++ dedent :: rest) := by simp
  rw [found] at bounded ⊢
  rw [suiteAt, expect_kind _ reads]
  exact readBlock_indented ends opens statements closes (Nat.le_of_succ_le bounded)

theorem readStatements_nothing : Takes n inLoop (.statements .skip) [] := by
  intro bound rest ends k _ ended _ _
  cases k with
  | zero => rfl
  | succ k =>
      rw [List.nil_append, readStatements, if_pos ended]

theorem readStatements_more {first second first₀ second₀ : Stmt}
    (forms : Forms n inLoop (.statement first₀) ts)
    (statement : Takes n inLoop (.statement first) ts)
    (formsRest : Forms n inLoop (.statements second₀) us)
    (others : Takes n inLoop (.statements second) us) :
    Takes n inLoop (.statements (.seq first second)) (ts ++ us) := by
  intro bound rest ends k closing ended bounded within
  rw [List.append_assoc] at bounded ⊢
  simp only [List.length_append] at bounded within
  rcases forms.begins with ⟨head, tail, rfl, begins⟩
  obtain ⟨k, rfl⟩ : ∃ m, k = m + 1 := ⟨k - 1, by simp at within; omega⟩
  -- Neither another statement nor the end of the block is a branch.
  have noBranch : NoBranch (us ++ rest) := by
    rcases formsRest.begins with rfl | ⟨next, tail, rfl, begins⟩
    · rcases closing _ ended with dedent | endOfInput
      · exact ⟨by simp [dedent], by simp [dedent]⟩
      · exact ⟨by simp [endOfInput], by simp [endOfInput]⟩
    · constructor <;>
      · intro branch
        change next.kind = _ at branch
        rw [branch] at begins
        cases begins
  have goesOn : ends head.kind ≠ true := by
    intro ended
    rcases closing _ ended with dedent | endOfInput
    · rw [dedent] at begins
      cases begins
    · rw [endOfInput] at begins
      cases begins
  have readFirst := statement bound (us ++ rest) noBranch (by simp at bounded ⊢; omega)
  have readSecond := others bound rest ends k closing ended (by simp at bounded ⊢; omega)
    (by simp at within; omega)
  rw [readStatements]
  change (if ends head.kind = true then _ else _) = _
  rw [if_neg goesOn, readFirst]
  change (readStatements _ ends k (us ++ rest)).bind _ = _
  rw [readSecond]
  rfl

end Readers

def Part.Taken (n : Nat) (inLoop : Bool) : Part → List Token → Prop
  | .simple s, ts => ∃ s', s'.Same s ∧ Takes n inLoop (.simple s') ts
  | .statement s, ts => ∃ s', s'.Same s ∧ Takes n inLoop (.statement s') ts
  | .statements s, ts => ∃ s', s'.Same s ∧ Takes n inLoop (.statements s') ts
  | .suite s, ts => ∃ s', s'.Same s ∧ Takes n inLoop (.suite s') ts
  | .branches b, ts => ∃ b', BranchesSame b' b ∧ Takes n inLoop (.branches b') ts

theorem Forms.taken {n : Nat} {inLoop : Bool} {part : Part} {ts : List Token}
    (forms : Forms n inLoop part ts) : part.Taken n inLoop ts := by
  induction forms with
  | @pass _ _ word reads =>
      refine ⟨.skip, .refl _, fun bound rest _ _ => ?_⟩
      have known : kindOf (word :: rest) = .keyword .pass := reads
      rw [List.singleton_append, readSimple, known]
      rfl
  | @breakLoop _ _ word reads =>
      refine ⟨.breakLoop word.position.line, .breakLoop, fun bound rest _ _ => ?_⟩
      have known : kindOf (word :: rest) = .keyword .break := reads
      rw [List.singleton_append, readSimple, known]
      rfl
  | @continueLoop _ _ word reads =>
      refine ⟨.continueLoop word.position.line, .continueLoop, fun bound rest _ _ => ?_⟩
      have known : kindOf (word :: rest) = .keyword .continue := reads
      rw [List.singleton_append, readSimple, known]
      rfl
  | evaluate spells =>
      obtain ⟨_, same, expression⟩ := spells.reading
      exact ⟨_, .evaluate same, readSimple_evaluate spells expression⟩
  | assign names free reads spells =>
      obtain ⟨_, same, expression⟩ := spells.reading
      exact ⟨_, .assign _ same, readSimple_assign names free reads expression⟩
  | augment names free applies reads spells =>
      obtain ⟨_, same, expression⟩ := spells.reading
      exact ⟨_, .augment _ _ same, readSimple_augment names free applies reads expression⟩
  | line simple ends ih =>
      obtain ⟨_, same, takes⟩ := ih
      exact ⟨_, same, readStatement_line simple.begins takes ends⟩
  | conditional reads spells suite _ ihSuite ihBranches =>
      obtain ⟨_, sameTest, test⟩ := spells.reading
      obtain ⟨_, sameBody, body⟩ := ihSuite
      obtain ⟨_, sameRest, branches⟩ := ihBranches
      exact ⟨_, conditional_same sameTest sameBody sameRest,
        readStatement_conditional reads ⟨test, kindOf_suite suite, body, branches⟩⟩
  | noBranch => exact ⟨none, trivial, readBranches_none⟩
  | elifBranch reads spells suite _ ihSuite ihBranches =>
      obtain ⟨_, sameTest, test⟩ := spells.reading
      obtain ⟨_, sameBody, body⟩ := ihSuite
      obtain ⟨_, sameRest, branches⟩ := ihBranches
      exact ⟨some (_, _), conditional_same sameTest sameBody sameRest,
        readBranches_elif reads ⟨test, kindOf_suite suite, body, branches⟩⟩
  | elseBranch reads _ ih =>
      obtain ⟨_, same, suite⟩ := ih
      exact ⟨some (_, _), same, readBranches_else reads suite⟩
  | whileLoop reads spells suite ih =>
      obtain ⟨_, sameTest, test⟩ := spells.reading
      obtain ⟨_, sameBody, body⟩ := ih
      exact ⟨_, .whileLoop sameTest sameBody, readStatement_while reads test suite body⟩
  | forLoop reads names free between spells suite ih =>
      obtain ⟨_, same, iterable⟩ := spells.reading
      obtain ⟨_, sameBody, body⟩ := ih
      exact ⟨_, .forLoop _ same sameBody,
        readStatement_for reads names free between iterable suite body⟩
  | inline reads simple ends ih =>
      obtain ⟨_, same, takes⟩ := ih
      exact ⟨_, same, suiteAt_inline simple.begins reads takes ends⟩
  | block reads ends opens _ closes ih =>
      obtain ⟨_, same, statements⟩ := ih
      exact ⟨_, same, suiteAt_block reads ends opens statements closes⟩
  | nothing => exact ⟨.skip, .refl _, readStatements_nothing⟩
  | more statement others ih ih' =>
      obtain ⟨_, sameFirst, first⟩ := ih
      obtain ⟨_, sameSecond, second⟩ := ih'
      exact ⟨_, .seq sameFirst sameSecond, readStatements_more statement first others second⟩

theorem FormsScript.taken {s : Stmt} {tokens : List Token} (forms : FormsScript s tokens) :
    ∃ s', s'.Same s ∧ ∀ bound, tokens.length ≤ bound → ∃ rest,
      readStatements (readTopLevel bound) (· = .endOfInput) bound tokens = .ok (s', rest) := by
  rcases forms with ⟨ts, last, rfl, ends, forms⟩
  have closing (kind : TokenKind) (ended : decide (kind = .endOfInput) = true) :
      kind = .dedent ∨ kind = .endOfInput := .inr (of_decide_eq_true ended)
  obtain ⟨s', same, takes⟩ := forms.taken
  refine ⟨s', same, fun bound bounded => ⟨[last], ?_⟩⟩
  have within : ts.length ≤ bound := by
    rw [List.length_append] at bounded
    omega
  exact takes bound [last] (· = .endOfInput) bound closing (decide_eq_true ends) bounded within

theorem FormsScript.reads {s : Stmt} {tokens : List Token} (forms : FormsScript s tokens) :
    ∃ script, Script.ofTokens? tokens = .ok script ∧ script.body.Same s := by
  obtain ⟨s', same, taken⟩ := forms.taken
  obtain ⟨rest, read⟩ := taken tokens.length (Nat.le_refl _)
  refine ⟨⟨s', Script.lastLineOf tokens⟩, ?_, same⟩
  rw [Script.ofTokens?]
  change (readStatements (readTopLevel _) _ _ _).bind _ = _
  rw [read]
  rfl

end LessonScript
