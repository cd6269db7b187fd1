import LessonScript.Proofs.StmtAccepted

/-!
A reader leaves at most as many tokens as it was given.

No end of the input has to be among the tokens for that, so it holds of any part of a script.
-/

namespace LessonScript

open TokenReader ExprReader StmtReader

def Shortens {α : Type} (reader : TokenReader α) : Prop :=
  ∀ {tokens a rest}, reader tokens = .ok (a, rest) → rest.length ≤ tokens.length

theorem Finds.shortens {α : Type} {reader : TokenReader α} {isPart : List Token → Prop}
    (finds : Finds reader isPart) : Shortens reader := by
  intro tokens a rest done
  obtain ⟨used, rfl, _⟩ := finds _ _ _ done
  rw [List.length_append]
  exact Nat.le_add_left _ _

theorem length_tail_le (tokens : List Token) : tokens.tail.length ≤ tokens.length := by
  rw [List.length_tail]
  exact Nat.sub_le _ _

theorem expect_shortens {kind : TokenKind} {tokens rest : List Token}
    (done : expect kind tokens = .ok rest) : rest.length ≤ tokens.length := by
  obtain ⟨_, rfl⟩ := expect_cases done
  exact length_tail_le tokens

section Level

variable {bound n : Nat} {inLoop : Bool}

theorem expression_shortens : Shortens (innerAt bound n).expression :=
  (innerAt_finds bound n).expression.shortens

theorem readLine_shortens : Shortens (readLine (innerAt bound n).expression inLoop) := by
  intro tokens s rest done
  cases readLine_cases done with
  | newline read _ => exact (length_tail_le _).trans (readSimple_finds.shortens read)
  | exhausted read _ => exact readSimple_finds.shortens read

theorem readStatements_shortens {statement : TokenReader Stmt} (shortens : Shortens statement)
    (ends : TokenKind → Bool) (k : Nat) : Shortens (readStatements statement ends k) := by
  induction k with
  | zero =>
      intro tokens s rest done
      cases done
      exact Nat.le_refl _
  | succ k ih =>
      intro tokens s rest done
      cases readStatements_cases done with
      | none => exact Nat.le_refl _
      | more read others => exact (ih others).trans (shortens read)

theorem guardedRead_shortens {suite : TokenReader Stmt} (shortens : Shortens suite) {k : Nat}
    (others : Shortens (readBranches (innerAt bound n).expression suite k))
    {tokens rest : List Token} {test : Expr} {body : Stmt} {branches : Option (Nat × Stmt)}
    (read : GuardedRead (innerAt bound n).expression suite k tokens test body branches rest) :
    rest.length ≤ tokens.length := by
  cases read with
  | intro readTest readBody readRest =>
      exact (others readRest).trans ((shortens readBody).trans
        ((expression_shortens readTest).trans (length_tail_le _)))

theorem readBranches_shortens {suite : TokenReader Stmt} (shortens : Shortens suite) (k : Nat) :
    Shortens (readBranches (innerAt bound n).expression suite k) := by
  induction k with
  | zero =>
      intro tokens b rest done
      cases done
      exact Nat.le_refl _
  | succ k ih =>
      intro tokens b rest done
      cases readBranches_cases done with
      | none => exact Nat.le_refl _
      | elifBranch _ guarded => exact guardedRead_shortens shortens ih guarded
      | elseBranch _ readBody => exact (shortens readBody).trans (length_tail_le _)

section Statement

variable {suite : SuiteReader} (suites : ∀ inLoop, Shortens (suite inLoop))

include suites

theorem readStatement_shortens :
    Shortens (readStatement bound (innerAt bound n).expression suite inLoop) := by
  intro tokens s rest done
  cases readStatement_cases done with
  | conditional _ guarded =>
      exact guardedRead_shortens (suites inLoop) (readBranches_shortens (suites inLoop) bound)
        guarded
  | whileLoop _ readTest readBody =>
      exact (suites true readBody).trans ((expression_shortens readTest).trans (length_tail_le _))
  | forLoop _ _ _ between readIterable readBody =>
      exact (suites true readBody).trans ((expression_shortens readIterable).trans
        ((expect_shortens between).trans ((length_tail_le _).trans (length_tail_le _))))
  | line read => exact readLine_shortens read

theorem readBlock_shortens :
    Shortens (readBlock bound (innerAt bound n).expression suite inLoop) := by
  intro tokens s rest done
  cases readBlock_cases done with
  | @indented behind _ _ readBody =>
      have inside :=
        readStatements_shortens (readStatement_shortens suites) endsBlock bound readBody
      have outside := inside.trans ((length_tail_le _).trans (length_tail_le _))
      split
      · exact (length_tail_le behind).trans outside
      · exact outside
  | line read => exact readLine_shortens read

end Statement

end Level

theorem suiteAt_shortens (bound n : Nat) (inLoop : Bool) : Shortens (suiteAt bound n inLoop) := by
  induction n generalizing inLoop with
  | zero =>
      intro tokens s rest done
      obtain ⟨m, _, impossible, _⟩ := suiteAt_cases done
      cases impossible
  | succ n ih =>
      intro tokens s rest done
      obtain ⟨m, behind, same, expected, onward⟩ := suiteAt_cases done
      cases same
      exact (readBlock_shortens ih onward).trans (expect_shortens expected)

theorem guarded_shortens {bound n k : Nat} {inLoop : Bool} {tokens behind rest : List Token}
    {test : Expr} {body : Stmt}
    (readTest : (innerAt bound n).expression tokens.tail = .ok (test, behind))
    (readBody : suiteAt bound n inLoop behind = .ok (body, rest)) (short : tokens.length ≤ k + 1) :
    rest.length ≤ k := by
  have left := (suiteAt_shortens _ _ _ readBody).trans (expression_shortens readTest)
  rw [List.length_tail] at left
  omega

end LessonScript
