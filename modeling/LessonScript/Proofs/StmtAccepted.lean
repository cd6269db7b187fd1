import LessonScript.Proofs.ExprAccepted
import LessonScript.Proofs.Layout
import LessonScript.Proofs.StmtReading

/-!
Whatever is read from laid out tokens is a form of the grammar.

A reader may stop at the end of the input where the grammar wants the end of a line or a dedent.
In laid out tokens it never does: a line does not end there, and a block that is still open has
its dedent to come.
-/

namespace LessonScript

open TokenReader ExprReader StmtReader

def TakesFrom {α : Type} (bound : Nat) (reader : TokenReader α) (isPart : List Token → Prop) :
    Prop :=
  ∀ d tokens a rest, tokens.length ≤ bound → LaidOut d tokens → reader tokens = .ok (a, rest) →
    ∃ used, tokens = used ++ rest ∧ isPart used ∧ LaidOut d rest

def Formed (n : Nat) (inLoop : Bool) (part : Stmt → Part) (ts : List Token) : Prop :=
  ∃ s, Forms n inLoop (part s) ts

theorem TokenKind.onLine_of_inExpression {kind : TokenKind} (inside : kind.inExpression = true) :
    kind.onLine = true := by
  unfold TokenKind.onLine
  split
  case h_6 => rfl
  all_goals cases inside

theorem Forms.onLine {n : Nat} {inLoop : Bool} {s : Stmt} {ts : List Token}
    (forms : Forms n inLoop (.simple s) ts) : ∀ t ∈ ts, t.kind.onLine = true := by
  have word {kind : TokenKind} {t : Token} (reads : t.kind = kind) (plain : kind.onLine = true) :
      t.kind.onLine = true := by
    rw [reads]
    exact plain
  cases forms with
  | pass reads | breakLoop reads | continueLoop reads => simpa using word reads rfl
  | evaluate expression =>
      exact fun t member => TokenKind.onLine_of_inExpression (expression.inExpression t member)
  | assign names _ reads expression | augment names _ _ reads expression =>
      simp only [List.forall_mem_cons]
      exact ⟨word names rfl, word reads rfl,
        fun t member => TokenKind.onLine_of_inExpression (expression.inExpression t member)⟩

section Level

variable {bound n : Nat} {inLoop : Bool}

theorem expression_takes :
    TakesFrom bound (innerAt bound n).expression (Spelled n .expression) := by
  intro d tokens e rest _ laidOut done
  obtain ⟨used, rfl, e', spells⟩ := (innerAt_finds bound n).expression _ _ _ done
  have behind := laidOut.behind_piece
    (fun t member => TokenKind.onLine_of_inExpression (spells.inExpression t member)) spells.ne_nil
  exact ⟨used, rfl, ⟨e', spells⟩, behind.2⟩

theorem augmentOp?_eq {symbol : Symbol} (assigns : symbol.isAssignment = true) :
    (augmentOp? symbol = none ∧ symbol = .assign) ∨
      ∃ op, augmentOp? symbol = some op ∧ op.assignSign? = some symbol := by
  cases symbol <;> cases assigns
  case assign => exact .inl ⟨rfl, rfl⟩
  all_goals exact .inr ⟨_, rfl, rfl⟩

theorem readSimple_finds :
    Finds (readSimple (innerAt bound n).expression inLoop) (Formed n inLoop .simple) := by
  intro tokens s rest done
  cases readSimple_cases done with
  | pass passes =>
      obtain ⟨word, others, rfl, reads⟩ := exists_of_kindOf passes nofun
      exact ⟨[word], rfl, .skip, .pass reads⟩
  | breakLoop leaves inside =>
      obtain ⟨word, others, rfl, reads⟩ := exists_of_kindOf leaves nofun
      subst inside
      exact ⟨[word], rfl, .breakLoop 0, .breakLoop reads⟩
  | continueLoop restarts inside =>
      obtain ⟨word, others, rfl, reads⟩ := exists_of_kindOf restarts nofun
      subst inside
      exact ⟨[word], rfl, .continueLoop 0, .continueLoop reads⟩
  | @assignment id symbol _ _ names free signs assigns read =>
      obtain ⟨name, behind, rfl, named⟩ := exists_of_kindOf names nofun
      obtain ⟨sign, others, same, sets⟩ := exists_of_kindOf signs nofun
      change behind = _ at same
      subst same
      cases read with
      | assign plain read =>
          obtain ⟨used, same, e', spells⟩ := (innerAt_finds bound n).expression _ _ _ read
          change others = _ at same
          subst same
          rcases augmentOp?_eq assigns with ⟨_, rfl⟩ | ⟨op, augments, _⟩
          · exact ⟨name :: sign :: used, rfl, .assign 0 id e', .assign named free sets spells⟩
          · cases plain.symm.trans augments
      | augment augments read =>
          obtain ⟨used, same, e', spells⟩ := (innerAt_finds bound n).expression _ _ _ read
          change others = _ at same
          subst same
          rcases augmentOp?_eq assigns with ⟨plain, _⟩ | ⟨op, _, applies⟩
          · cases plain.symm.trans augments
          · exact ⟨name :: sign :: used, rfl, .augment 0 id op 0 e',
              .augment named free applies sets spells⟩
  | evaluate read =>
      obtain ⟨used, same, e', spells⟩ := (innerAt_finds bound n).expression _ _ _ read
      exact ⟨used, same, .evaluate 0 e', .evaluate spells⟩

theorem readLine_takes :
    TakesFrom bound (readLine (innerAt bound n).expression inLoop)
      (fun ts => ∃ s used stop, ts = used ++ [stop] ∧ stop.kind = .newline ∧
        Forms n inLoop (.simple s) used) := by
  intro d tokens s rest _ laidOut done
  have behindLine {s : Stmt} {behind : List Token}
      (read : readSimple (innerAt bound n).expression inLoop tokens = .ok (s, behind)) :
      ∃ used, tokens = used ++ behind ∧ Formed n inLoop .simple used ∧
        kindOf behind ≠ .endOfInput ∧ LaidOut d behind := by
    obtain ⟨used, rfl, s', forms⟩ := readSimple_finds _ _ _ read
    rcases forms.begins with ⟨first, others, some, _⟩
    obtain ⟨goesOn, behind⟩ := laidOut.behind_piece forms.onLine (by rw [some]; exact nofun)
    exact ⟨used, rfl, ⟨s', forms⟩, goesOn, behind⟩
  cases readLine_cases done with
  | newline read ends =>
      obtain ⟨used, rfl, ⟨s', forms⟩, _, behind⟩ := behindLine read
      obtain ⟨stop, others, rfl, reads⟩ := exists_of_kindOf ends nofun
      exact ⟨used ++ [stop], by simp, ⟨s', used, stop, rfl, reads, forms⟩,
        behind.behind_newline reads⟩
  | exhausted read ends =>
      -- Laid out tokens do not end in the middle of a line.
      obtain ⟨_, _, _, goesOn, _⟩ := behindLine read
      exact absurd ends goesOn

theorem readStatements_takes {statement : TokenReader Stmt}
    (takes : TakesFrom bound statement (Formed n inLoop .statement)) (ends : TokenKind → Bool)
    (k : Nat) {d : Nat} {tokens rest : List Token} {s : Stmt} (within : tokens.length ≤ k)
    (bounded : tokens.length ≤ bound) (laidOut : LaidOut d tokens)
    (done : readStatements statement ends k tokens = .ok (s, rest)) :
    ∃ used, tokens = used ++ rest ∧ Formed n inLoop .statements used ∧ LaidOut d rest ∧
      ends (kindOf rest) = true := by
  induction k generalizing tokens s with
  | zero =>
      cases List.length_eq_zero_iff.mp (Nat.le_zero.mp within)
      cases laidOut
  | succ k ih =>
      cases readStatements_cases done with
      | none ended => exact ⟨[], rfl, ⟨.skip, .nothing⟩, laidOut, ended⟩
      | more read others =>
          obtain ⟨used, rfl, ⟨s₁, forms⟩, behindFirst⟩ := takes _ _ _ _ bounded laidOut read
          rcases forms.begins with ⟨head, tail, rfl, _⟩
          simp only [List.cons_append, List.length_cons, List.length_append] at within bounded
          obtain ⟨used', rfl, ⟨s₂, formsRest⟩, behindAll, ended⟩ :=
            ih (by omega) (by omega) behindFirst others
          exact ⟨head :: tail ++ used', by simp, ⟨.seq s₁ s₂, .more forms formsRest⟩, behindAll,
            ended⟩

def SuitesTake (bound n : Nat) (suite : SuiteReader) : Prop :=
  ∀ inLoop, TakesFrom bound (suite inLoop) (Formed n inLoop .suite)

theorem headAndSuite_takes {suite : TokenReader Stmt}
    (takes : TakesFrom bound suite (Formed n inLoop .suite)) {d : Nat}
    {tokens behind rest : List Token} {e : Expr} {s : Stmt} (bounded : tokens.length ≤ bound)
    (laidOut : LaidOut d tokens)
    (readHead : (innerAt bound n).expression tokens = .ok (e, behind))
    (readSuite : suite behind = .ok (s, rest)) :
    ∃ e' ts s' us, tokens = ts ++ (us ++ rest) ∧ Spells n (.operand .expression e') ts ∧
      Forms n inLoop (.suite s') us ∧ LaidOut d rest := by
  obtain ⟨ts, rfl, ⟨e', spells⟩, behindHead⟩ :=
    expression_takes _ _ _ _ bounded laidOut readHead
  rw [List.length_append] at bounded
  obtain ⟨us, rfl, ⟨s', forms⟩, laidOutRest⟩ :=
    takes _ _ _ _ (by omega) behindHead readSuite
  exact ⟨e', ts, s', us, rfl, spells, forms, laidOutRest⟩

theorem guarded_takes {suite : TokenReader Stmt}
    (takes : TakesFrom bound suite (Formed n inLoop .suite)) {k : Nat}
    (others : TakesFrom bound (readBranches (innerAt bound n).expression suite k)
      fun ts => ∃ b, Forms n inLoop (.branches b) ts) {d : Nat} {word : Token}
    {tokens rest : List Token} {test : Expr} {body : Stmt} {branches : Option (Nat × Stmt)}
    (bounded : (word :: tokens).length ≤ bound) (laidOut : LaidOut d tokens)
    (read : GuardedRead (innerAt bound n).expression suite k (word :: tokens) test body branches
      rest) :
    ∃ e ts s us b vs, tokens = ts ++ (us ++ (vs ++ rest)) ∧
      Spells n (.operand .expression e) ts ∧ Forms n inLoop (.suite s) us ∧
      Forms n inLoop (.branches b) vs ∧ LaidOut d rest := by
  cases read with
  | intro readTest readBody readRest =>
      obtain ⟨e, ts, s, us, same, spells, forms, behindBody⟩ :=
        headAndSuite_takes takes (Nat.le_of_succ_le bounded) laidOut readTest readBody
      change tokens = _ at same
      subst same
      simp only [List.length_cons, List.length_append] at bounded
      obtain ⟨vs, rfl, ⟨b, formsRest⟩, behindAll⟩ :=
        others _ _ _ _ (by omega) behindBody readRest
      exact ⟨e, ts, s, us, b, vs, rfl, spells, forms, formsRest, behindAll⟩

theorem readBranches_takes {suite : TokenReader Stmt}
    (takes : TakesFrom bound suite (Formed n inLoop .suite)) (k : Nat) :
    TakesFrom bound (readBranches (innerAt bound n).expression suite k)
      (fun ts => ∃ b, Forms n inLoop (.branches b) ts) := by
  induction k with
  | zero =>
      intro d tokens b rest _ laidOut done
      cases done
      exact ⟨[], rfl, ⟨none, .noBranch⟩, laidOut⟩
  | succ k ih =>
      intro d tokens b rest bounded laidOut done
      cases readBranches_cases done with
      | none => exact ⟨[], rfl, ⟨none, .noBranch⟩, laidOut⟩
      | elifBranch elif guarded =>
          obtain ⟨word, behind, rfl, reads⟩ := exists_of_kindOf elif nofun
          have behindWord := (laidOut.behind_word (by rw [reads]; rfl)).2
          obtain ⟨e, ts, s, us, b', vs, same, spells, forms, formsRest, behindAll⟩ :=
            guarded_takes takes ih bounded behindWord guarded
          subst same
          exact ⟨word :: (ts ++ (us ++ vs)), by simp,
            ⟨some (0, conditional 0 e s b'), .elifBranch reads spells forms formsRest⟩, behindAll⟩
      | elseBranch «else» readBody =>
          obtain ⟨word, behind, rfl, reads⟩ := exists_of_kindOf «else» nofun
          have behindWord := (laidOut.behind_word (by rw [reads]; rfl)).2
          obtain ⟨used, same, ⟨s, forms⟩, behindBody⟩ :=
            takes _ _ _ _ (Nat.le_of_succ_le bounded) behindWord readBody
          change behind = _ at same
          subst same
          exact ⟨word :: used, rfl, ⟨some (0, s), .elseBranch reads forms⟩, behindBody⟩

section Statement

variable {suite : SuiteReader} (suites : SuitesTake bound n suite)

include suites

theorem readStatement_takes :
    TakesFrom bound (readStatement bound (innerAt bound n).expression suite inLoop)
      (Formed n inLoop .statement) := by
  intro d tokens s rest bounded laidOut done
  cases readStatement_cases done with
  | conditional «if» guarded =>
      obtain ⟨word, behind, rfl, reads⟩ := exists_of_kindOf «if» nofun
      have behindWord := (laidOut.behind_word (by rw [reads]; rfl)).2
      obtain ⟨e, ts, s, us, b, vs, same, spells, forms, formsRest, behindAll⟩ :=
        guarded_takes (suites inLoop) (readBranches_takes (suites inLoop) bound) bounded behindWord
          guarded
      subst same
      exact ⟨word :: (ts ++ (us ++ vs)), by simp,
        ⟨conditional 0 e s b, .conditional reads spells forms formsRest⟩, behindAll⟩
  | whileLoop «while» readTest readBody =>
      obtain ⟨word, behind, rfl, reads⟩ := exists_of_kindOf «while» nofun
      have behindWord := (laidOut.behind_word (by rw [reads]; rfl)).2
      obtain ⟨e, ts, s, us, same, spells, forms, behindBody⟩ :=
        headAndSuite_takes (suites true) (Nat.le_of_succ_le bounded) behindWord readTest readBody
      change behind = _ at same
      subst same
      exact ⟨word :: (ts ++ us), by simp, ⟨.whileLoop 0 e s, .whileLoop reads spells forms⟩,
        behindBody⟩
  | @forLoop id _ _ _ _ _ «for» names free between readIterable readBody =>
      obtain ⟨word, behind, rfl, reads⟩ := exists_of_kindOf «for» nofun
      have behindWord := (laidOut.behind_word (by rw [reads]; rfl)).2
      obtain ⟨name, others, same, named⟩ := exists_of_kindOf names nofun
      change behind = _ at same
      subst same
      have behindName := (behindWord.behind_word (by rw [named]; rfl)).2
      obtain ⟨«in», same, joins⟩ := exists_of_expect between nofun
      change others = _ at same
      subst same
      have behindIn := (behindName.behind_word (by rw [joins]; rfl)).2
      simp only [List.length_cons] at bounded
      obtain ⟨e, ts, s, us, rfl, spells, forms, behindBody⟩ :=
        headAndSuite_takes (suites true) (by omega) behindIn readIterable readBody
      exact ⟨word :: name :: «in» :: (ts ++ us), by simp,
        ⟨.forLoop 0 id e s, .forLoop reads named free joins spells forms⟩, behindBody⟩
  | line read =>
      obtain ⟨used, same, ⟨s', line, stop, rfl, ends, forms⟩, behind⟩ :=
        readLine_takes _ _ _ _ bounded laidOut read
      exact ⟨line ++ [stop], same, ⟨s', .line forms ends⟩, behind⟩

theorem readBlock_takes :
    TakesFrom bound (readBlock bound (innerAt bound n).expression suite inLoop) fun ts =>
      ∀ colon : Token, colon.kind = .symbol .colon →
        Formed (n + 1) inLoop .suite (colon :: ts) := by
  intro d tokens s rest bounded laidOut done
  cases readBlock_cases done with
  | @indented behind ends opens readBody =>
      obtain ⟨newline, block, rfl, breaks⟩ := exists_of_kindOf ends (by simp)
      obtain ⟨indent, inside, same, indents⟩ := exists_of_kindOf opens (by simp)
      change block = _ at same
      subst same
      have behindIndent := (laidOut.behind_newline breaks).behind_indent indents
      simp only [List.length_cons] at bounded
      have short : inside.length ≤ bound := by omega
      obtain ⟨used, same, ⟨s', forms⟩, behindBody, ended⟩ :=
        readStatements_takes (readStatement_takes suites) endsBlock bound short short behindIndent
          readBody
      change inside = _ at same
      subst same
      -- The block is still open here, so the input does not end.
      have closed : kindOf behind = .dedent := by
        have either : kindOf behind = .dedent ∨ kindOf behind = .endOfInput := by
          simpa [endsBlock] using ended
        rcases either with closed | ended
        · exact closed
        · exact absurd (behindBody.of_end ended).1 (Nat.succ_ne_zero _)
      obtain ⟨dedent, others, rfl, closes⟩ := exists_of_kindOf closed (by simp)
      rw [if_pos closed]
      refine ⟨newline :: indent :: (used ++ [dedent]), by simp, ?_, behindBody.behind_dedent closes⟩
      exact fun colon reads => ⟨s', .block reads breaks indents forms closes⟩
  | line read =>
      obtain ⟨used, same, ⟨s', line, stop, rfl, ends, forms⟩, behind⟩ :=
        readLine_takes _ _ _ _ bounded laidOut read
      exact ⟨line ++ [stop], same, fun colon reads => ⟨s', .inline reads forms ends⟩, behind⟩

end Statement

end Level

theorem suiteAt_takes (bound n : Nat) : SuitesTake bound n (suiteAt bound n) := by
  induction n with
  | zero =>
      intro inLoop d tokens s rest _ _ done
      obtain ⟨m, _, impossible, _⟩ := suiteAt_cases done
      cases impossible
  | succ n ih =>
      intro inLoop d tokens s rest bounded laidOut done
      obtain ⟨m, behind, same, expected, onward⟩ := suiteAt_cases done
      cases same
      obtain ⟨colon, rfl, reads⟩ := exists_of_expect expected nofun
      have behindColon := (laidOut.behind_word (by rw [reads]; rfl)).2
      obtain ⟨used, rfl, formed, laidOutRest⟩ :=
        readBlock_takes ih _ _ _ _ (Nat.le_of_succ_le bounded) behindColon onward
      exact ⟨colon :: used, rfl, formed colon reads, laidOutRest⟩

theorem exists_formsScript {tokens : List Token} (laidOut : LaidOut 0 tokens) {script : Script}
    (read : Script.ofTokens? tokens = .ok script) : ∃ s, FormsScript s tokens := by
  obtain ⟨⟨body, rest⟩, done, _⟩ := exists_of_bind_ok read
  obtain ⟨used, rfl, ⟨s, forms⟩, behind, ended⟩ :=
    readStatements_takes (readStatement_takes (suiteAt_takes tokens.length maxNesting)) _ _
      (Nat.le_refl _) (Nat.le_refl _) laidOut done
  obtain ⟨_, last, rfl, ends⟩ := behind.of_end (of_decide_eq_true ended)
  exact ⟨s, used, last, rfl, ends, forms⟩

end LessonScript
