import LessonScript.Proofs.CodeLines
import LessonScript.Proofs.SugarReading

/-!
Sugar has the code of what it stands for.

`Expands` lists the ways to write a piece of a script out, with what comes behind the piece.  Where
one of them is used in a script that compiles, the script still compiles to the same listing, unless
it now opens too many levels (`Program.expansion_listing`).  Of the other text no more is asked than
the kinds of its tokens, so it may be laid out in any way.
-/

namespace LessonScript

open TokenReader ExprReader StmtReader

/-- Where the first tokens stand behind one that opens this, the second ones say the same in other
words. -/
inductive Expands : Opening → List Token → List Token → Prop
  /-- An operator is applied to a name, and the result is assigned to the name. -/
  | augment {o : Opening} {n : Nat} {id : String} {op : ArithOp} {symbol : Symbol} {e : Expr}
      {name sign assign operator left right stop : Token} {ts back : List Token}
      (line : o ≠ .expression) (names : name.kind = .name id) (free : isReserved id = false)
      (applies : op.assignSign? = some symbol) (reads : sign.kind = .symbol symbol)
      (expression : Spells n (.operand .expression e) ts) (ends : stop.kind = .newline)
      (assigns : assign.kind = .symbol .assign) (operates : operator.kind = .symbol op.sign)
      (opening : left.kind = .symbol .leftParen) (closing : right.kind = .symbol .rightParen) :
      Expands o (name :: sign :: ts ++ stop :: back)
        (name :: assign :: name :: operator :: left :: (ts ++ [right]) ++ stop :: back)
  /-- A right-hand side, a condition, an iterable or an argument is put in parentheses. -/
  | parentheses {n : Nat} {e : Expr} {left right : Token} {ts back : List Token}
      (expression : Spells n (.operand .expression e) ts)
      (whole : (kindOf back).stops Strength.expression.looseness = true)
      (opening : left.kind = .symbol .leftParen) (closing : right.kind = .symbol .rightParen) :
      Expands .expression (ts ++ back) (left :: (ts ++ right :: back))
  /-- An expression that is a statement is put in parentheses. -/
  | evaluation {o : Opening} {n : Nat} {e : Expr} {left right stop : Token} {ts back : List Token}
      (line : o ≠ .expression) (expression : Spells n (.operand .expression e) ts)
      (ends : stop.kind = .newline) (opening : left.kind = .symbol .leftParen)
      (closing : right.kind = .symbol .rightParen) :
      Expands o (ts ++ stop :: back) (left :: (ts ++ [right]) ++ stop :: back)
  /-- The branches of a conditional from an `elif` on go into an `else` as a conditional. -/
  | branches {n : Nat} {inLoop : Bool} {b : Option (Nat × Stmt)}
      {elif «else» colon newline indent «if» dedent : Token} {ts back : List Token}
      (reads : elif.kind = .keyword .elif) (branches : Forms n inLoop (.branches b) (elif :: ts))
      (last : NoBranch back) (begins : «if».kind = .keyword .if)
      (block : ElseBlock «else» colon newline indent dedent) :
      Expands .statement (elif :: ts ++ back)
        («else» :: colon :: newline :: indent :: «if» :: (ts ++ dedent :: back))
  /-- The statement on the line of a header gets a line and a block of its own. -/
  | suite {n : Nat} {inLoop : Bool} {s : Stmt} {stop newline indent dedent : Token}
      {ts back : List Token} (simple : Forms n inLoop (.simple s) ts) (ends : stop.kind = .newline)
      (parts : newline.kind = .newline) (opens : indent.kind = .indent)
      (closes : dedent.kind = .dedent) :
      Expands .suite (ts ++ stop :: back) (newline :: indent :: (ts ++ stop :: dedent :: back))

namespace Expands

variable {o : Opening} {ts us : List Token}

theorem length_le (expands : Expands o ts us) : ts.length ≤ us.length := by
  cases expands <;> simp only [List.length_cons, List.length_append] <;> omega

theorem ne_nil (expands : Expands o ts us) : ts ≠ [] := by
  cases expands with
  | parentheses expression => exact List.append_ne_nil_of_left_ne_nil expression.ne_nil _
  | _ => simp

theorem bridged {d bound : Nat} (expands : Expands o ts us) (laid : LaidOut d ts)
    (short : us.length ≤ bound) :
    ∃ places : Opening → Prop, places o ∧ (Parting.swap bound places ts us).Bridged := by
  have short' := expands.length_le.trans short
  cases expands with
  | augment line names free applies reads expression ends assigns operates opening closing =>
      obtain ⟨e, _, read⟩ := expression.reading
      have written := readExpression_operation names free operates opening read closing
      refine ⟨(· ≠ .expression), line, swap_lines (.augment names free applies reads read)
        (.assign names free assigns written) ?_ ends short' short⟩
      exact .augment_assign trivial _ _ trivial trivial (.refl AnyLines.refl e)
  | parentheses expression whole opening closing =>
      obtain ⟨e, _, read⟩ := expression.reading
      exact ⟨(· = .expression), rfl,
        swap_parentheses expression.begins read opening closing whole short⟩
  | evaluation line expression ends opening closing =>
      obtain ⟨e, _, read⟩ := expression.reading
      have enclosed := readExpression_parentheses opening read closing
      have primary := Spells.parentheses opening expression closing
      have spells := Spells.expression primary.inversion_of_primary.disjunction_of_inversion
      exact ⟨(· ≠ .expression), line, swap_lines (.evaluate expression read)
        (.evaluate spells enclosed) (.evaluate trivial (.refl AnyLines.refl e)) ends short'
        short⟩
  | branches reads branches last begins block =>
      exact ⟨(· = .statement), rfl, swap_branches branches last laid reads begins block short⟩
  | suite simple ends parts opens closes =>
      exact ⟨(· = .suite), rfl, swap_block simple ends parts opens closes short⟩

end Expands

section

variable {o : Opening} {front ts us : List Token}

/-- Readers of whole scripts make parts that are alike of a piece and of what it stands for. -/
theorem readTopLevel_expands (leads : LeadsTo o front) (expands : Expands o ts us)
    (laid : LaidOut 0 (front ++ ts)) {bound : Nat} (short : (front ++ us).length ≤ bound) :
    Agree True (fun x y => Stmt.Alike AnyLines x.1 y.1)
      (readStatements (readTopLevel bound) (· = .endOfInput) bound (front ++ ts))
      (readStatements (readTopLevel bound) (· = .endOfInput) bound (front ++ us)) := by
  have short' : (front ++ ts).length ≤ bound := by
    have longer := expands.length_le
    rw [List.length_append] at short ⊢
    omega
  obtain ⟨d, behind⟩ := laid.behind_front expands.ne_nil
  have within : us.length ≤ bound := by
    rw [List.length_append] at short
    omega
  obtain ⟨places, place, bridged⟩ := expands.bridged behind within
  have start : (Parting.swap bound places ts us).At .statement (front ++ ts) (front ++ us) :=
    leads.at_place (fun _ => trivial) ⟨place, rfl, rfl⟩ ⟨short', short⟩
  exact (readTopLevel_agrees bridged bound _ _ start).imp fun _ _ results => results.parts

/-- A script that is read is read alike where a piece is written out, or opens too many levels. -/
theorem Script.ofTokens?_expands (leads : LeadsTo o front) (expands : Expands o ts us)
    (laid : LaidOut 0 (front ++ ts)) {script : Script}
    (read : ofTokens? (front ++ ts) = .ok script) :
    Agree True (fun script script' => Stmt.Alike AnyLines script.body script'.body) (.ok script)
      (ofTokens? (front ++ us)) := by
  obtain ⟨s, forms⟩ := exists_formsScript laid read
  obtain ⟨body, _, taken⟩ := forms.taken
  -- The longer list is read with a higher bound, which makes the same statements of the first one.
  obtain ⟨rest, readAll⟩ := taken _ (Nat.le_refl _)
  obtain ⟨rest', readLonger⟩ := taken (front ++ us).length (by
    have longer := expands.length_le
    rw [List.length_append, List.length_append]
    omega)
  have same : script.body = body := by
    obtain ⟨⟨found, behind⟩, readThis, done⟩ := exists_of_bind_ok read
    cases done
    cases readThis.symm.trans readAll
    rfl
  have agree := readTopLevel_expands leads expands laid (Nat.le_refl (front ++ us).length)
  rw [readLonger] at agree
  unfold ofTokens?
  dsimp only
  revert agree
  generalize readStatements (readTopLevel _) _ _ (front ++ us) = outcome
  intro agree
  cases agree with
  | ok results => exact .ok (same ▸ results)
  | tooDeep allowed deep => exact .tooDeep allowed deep

end

namespace Program

variable {source other : String} {p : Program} {o : Opening} {front ts us : List Token}

/-- Where a piece of a script that compiles is written out, the script still compiles to the same
listing, or is refused since it opens too many levels.  The written out script is any text with
tokens of these kinds. -/
theorem expansion_listing (compiled : ofSource? source = .ok p)
    (reads : tokenize source = front ++ ts) (leads : LeadsTo o front) (expands : Expands o ts us)
    (same : SameKinds (front ++ us) (tokenize other)) :
    (∃ q, ofSource? other = .ok q ∧ q.listing = p.listing) ∨
      ∃ fault, ofSource? other = .error (.ofFault (.malformed fault)) ∧
        fault.message = Complaint.tooDeep.message := by
  obtain ⟨script, read, rfl⟩ := exists_script compiled
  have laid := tokenize_laidOut source
  rw [reads] at read laid
  have agree := Script.ofTokens?_expands leads expands laid read
  have agree' := Script.ofTokens?_agrees (tokensAlike_of_kinds same)
  rw [ofSource?_eq]
  unfold Script.ofSource?
  revert agree agree'
  generalize Script.ofTokens? (front ++ us) = x
  generalize Script.ofTokens? (tokenize other) = y
  intro agree agree'
  cases agree with
  | ok bodies =>
      cases agree' with
      | ok bodies' =>
          have alike := bodies.trans AnyLines.trans bodies'
          exact .inl ⟨_, rfl, (ofScript_alike alike).listing_eq.symm⟩
      | tooDeep no => exact no.elim
  | tooDeep _ deep =>
      cases agree' with
      | error complaint =>
          refine .inr ⟨_, rfl, ?_⟩
          rw [Script.faultOf, ← complaint, deep]
      | refused no | tooDeep no => exact no.elim

theorem addition_listing :
    ∃ p q, ofSource? "while a:\n b += 2\n" = .ok p ∧ ofSource? "while a:\n b = b + (2)\n" = .ok q ∧
      q.listing = p.listing := by
  obtain ⟨p, compiled⟩ := exists_of_isOk "while a:\n b += 2\n" (by decide +kernel)
  obtain ⟨q, compiled'⟩ := exists_of_isOk "while a:\n b = b + (2)\n" (by decide +kernel)
  have reads : tokenize "while a:\n b += 2\n" =
      [⟨.keyword .while, ⟨0, 1, 1⟩, "while".toList⟩, ⟨.name "a", ⟨6, 1, 7⟩, ['a']⟩,
        ⟨.symbol .colon, ⟨7, 1, 8⟩, [':']⟩, .mark .newline ⟨8, 1, 9⟩] ++
          [.mark .indent ⟨10, 2, 2⟩] ++
      (⟨.name "b", ⟨10, 2, 2⟩, ['b']⟩ :: ⟨.symbol .plusAssign, ⟨12, 2, 4⟩, ['+', '=']⟩ ::
        [⟨.int 2, ⟨15, 2, 7⟩, ['2']⟩] ++ .mark .newline ⟨16, 2, 8⟩ ::
          [.mark .dedent ⟨17, 3, 1⟩, .mark .endOfInput ⟨17, 3, 1⟩]) := by
    decide +kernel
  have two : Spells 1 (.operand .expression (.literal 2 (.int 2)))
      [⟨.int 2, ⟨15, 2, 7⟩, ['2']⟩] :=
    .expression (Spells.literal rfl).inversion_of_primary.disjunction_of_inversion
  have assign : (Token.mark (.symbol .assign) .start).kind = .symbol .assign := rfl
  have plus : (Token.mark (.symbol .plus) .start).kind = .symbol ArithOp.add.sign := rfl
  have left : (Token.mark (.symbol .leftParen) .start).kind = .symbol .leftParen := rfl
  have right : (Token.mark (.symbol .rightParen) .start).kind = .symbol .rightParen := rfl
  have outcome : (∃ q, ofSource? "while a:\n b = b + (2)\n" = .ok q ∧ q.listing = p.listing) ∨ _ :=
    expansion_listing compiled reads (.inr ⟨_, _, rfl, rfl⟩)
      (.augment nofun rfl (by decide) rfl rfl two rfl assign plus left right)
      (by unfold SameKinds; decide +kernel)
  rcases outcome with ⟨q', other, same⟩ | ⟨fault, refused, _⟩
  · cases compiled'.symm.trans other
    exact ⟨p, q, compiled, compiled', same⟩
  · cases compiled'.symm.trans refused

/-- A conditional goes into an `else`, and the places that its jumps lead to stay where they were. -/
example : (ofSource? "if a:\n b\nelif c:\n d\ne\n").isOk = true ∧
    (ofSource? "if a:\n b\nelif c:\n d\ne\n").toOption.map listing =
      (ofSource? "if a:\n b\nelse:\n if c:\n  d\ne\n").toOption.map listing := by
  decide +kernel

end Program

end LessonScript
