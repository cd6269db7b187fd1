import LessonScript.Script.StmtReader

/-!
Where a script is refused.

A reader never goes past the end of the input, so there is always a next token, and whatever it
refuses it refuses at a token that it was given (`Within`).  This is proved reader by reader; the
one thing to see in each is that a token that is skipped is not the end of the input.
-/

namespace LessonScript

open TokenReader ExprReader StmtReader

def Ended (tokens : List Token) : Prop :=
  ∃ t, tokens.getLast? = some t ∧ t.kind = .endOfInput

/-- Some of the tokens have been read, and the end of the input has not. -/
structure LeftOf (tokens rest : List Token) : Prop where
  later : rest <:+ tokens
  ended : Ended rest

theorem LeftOf.trans {tokens rest last : List Token} (first : LeftOf tokens rest)
    (second : LeftOf rest last) : LeftOf tokens last :=
  ⟨second.later.trans first.later, second.ended⟩

namespace Ended

variable {tokens : List Token}

theorem whole (ended : Ended tokens) : LeftOf tokens tokens :=
  ⟨List.suffix_refl _, ended⟩

theorem exists_position (ended : Ended tokens) :
    ∃ t ∈ tokens, positionOf tokens = t.position := by
  cases tokens with
  | nil =>
      obtain ⟨last, found, _⟩ := ended
      cases found
  | cons t rest => exact ⟨t, List.mem_cons_self .., rfl⟩

theorem tail {kind : TokenKind} (ended : Ended tokens) (next : kindOf tokens = kind)
    (other : kind ≠ .endOfInput) : LeftOf tokens tokens.tail := by
  obtain ⟨last, found, closes⟩ := ended
  cases tokens with
  | nil => cases found
  | cons t rest =>
      refine ⟨List.suffix_cons .., last, ?_, closes⟩
      cases rest with
      | nil =>
          -- the only token would be the end of the input
          cases found
          exact absurd (next.symm.trans closes) other
      | cons u more => exact found

end Ended

/-- The reading stays within the tokens: it leaves some of them, and a refusal stands at one. -/
def Within {α : Type} (tokens : List Token) (left : α → List Token) : Except Refusal α → Prop
  | .ok a => LeftOf tokens (left a)
  | .error refusal => ∃ t ∈ tokens, refusal.position = t.position

namespace Within

variable {α β : Type} {tokens rest : List Token} {left : α → List Token}

theorem mono {x : Except Refusal α} (within : Within rest left x) (first : LeftOf tokens rest) :
    Within tokens left x := by
  cases x with
  | ok a => exact first.trans within
  | error refusal =>
      obtain ⟨t, member, stands⟩ := within
      exact ⟨t, first.later.subset member, stands⟩

theorem bind {left' : β → List Token} {x : Except Refusal α} {f : α → Except Refusal β}
    (first : Within tokens left x)
    (onward : ∀ a, Ended (left a) → Within (left a) left' (f a)) :
    Within tokens left' (x >>= f) := by
  cases x with
  | ok a => exact (onward a (LeftOf.ended first)).mono first
  | error refusal => exact first

theorem refuse (ended : Ended tokens) (complaint : Complaint) :
    Within tokens left (refuse complaint tokens) :=
  ended.exists_position

theorem unexpected (ended : Ended tokens) (wanted : String) :
    Within tokens left (unexpected wanted tokens) := by
  unfold TokenReader.unexpected
  split
  · exact refuse ended _
  · split <;> exact refuse ended _
  · exact refuse ended _
  · exact refuse ended _

theorem skip {kind : TokenKind} {x : Except Refusal α} (ended : Ended tokens)
    (next : kindOf tokens = kind) (other : kind ≠ .endOfInput)
    (onward : Ended tokens.tail → Within tokens.tail left x) : Within tokens left x :=
  (onward (ended.tail next other).ended).mono (ended.tail next other)

theorem expect {kind : TokenKind} (ended : Ended tokens) (other : kind ≠ .endOfInput) :
    Within tokens id (expect kind tokens) := by
  unfold TokenReader.expect
  split
  · rename_i next
    exact ended.tail next other
  · exact unexpected ended _

end Within

theorem kindOf_ne_endOfInput {α : Type} {op? : TokenKind → Option α} {op : α}
    {tokens : List Token} (quiet : op? .endOfInput = none)
    (found : op? (kindOf tokens) = some op) : kindOf tokens ≠ .endOfInput := by
  intro closes
  rw [closes, quiet] at found
  cases found

def Stays {α : Type} (reader : TokenReader α) : Prop :=
  ∀ tokens, Ended tokens → Within tokens Prod.snd (reader tokens)

structure InnerStays (inner : Inner) : Prop where
  expression : Stays inner.expression
  complement : Stays inner.complement
  negation : Stays inner.negation

section Expressions

variable {inner : Inner} {bound : Nat}

theorem readPrimary_stays (stays : InnerStays inner) : Stays (readPrimary inner) := by
  intro tokens ended
  have refused : Within tokens Prod.snd
      (unexpected "an expression" tokens : Except Refusal (Expr × List Token)) :=
    .unexpected ended _
  unfold readPrimary
  dsimp only
  cases next : kindOf tokens with
  | int | float | str => exact ended.tail next nofun
  | keyword word =>
      cases word with
      | true | false | nothing => exact ended.tail next nofun
      | _ => exact refused
  | name id =>
      change Within _ _ (if isReserved id = true then _ else _)
      split
      · exact .refuse ended _
      · exact ended.tail next nofun
  | symbol s =>
      cases s with
      | leftParen =>
          apply Within.skip ended next nofun
          intro ended
          apply Within.bind (stays.expression _ ended)
          rintro ⟨e, rest⟩ ended
          refine .bind (.expect ended nofun) fun rest ended => ?_
          exact ended.whole
      | _ => exact refused
  | _ => exact refused

theorem readArguments_stays (stays : InnerStays inner) (k : Nat) :
    Stays (readArguments inner k) := by
  induction k with
  | zero => exact fun tokens ended => ended.whole
  | succ k ih =>
      intro tokens ended
      unfold readArguments
      split
      · exact ended.whole
      · apply Within.bind (stays.expression _ ended)
        rintro ⟨arg, rest⟩ ended
        dsimp only
        split
        · rename_i next
          apply Within.skip ended next nofun
          intro ended
          apply Within.bind (ih _ ended)
          rintro ⟨args, rest⟩ ended
          exact ended.whole
        · exact ended.whole

theorem readCalls_stays (stays : InnerStays inner) (arguments k : Nat) (callee : Expr) :
    Stays (readCalls inner arguments k callee) := by
  induction k generalizing callee with
  | zero => exact fun tokens ended => ended.whole
  | succ k ih =>
      intro tokens ended
      unfold readCalls
      split
      · rename_i next
        apply Within.skip ended next nofun
        intro ended
        apply Within.bind (readArguments_stays stays arguments _ ended)
        rintro ⟨args, rest⟩ ended
        exact .bind (.expect ended nofun) fun rest ended => ih _ rest ended
      · exact ended.whole

theorem readCall_stays (stays : InnerStays inner) : Stays (readCall bound inner) := by
  intro tokens ended
  apply Within.bind (readPrimary_stays stays _ ended)
  rintro ⟨callee, rest⟩ ended
  exact readCalls_stays stays bound bound callee rest ended

theorem readUnary_stays (stays : InnerStays inner) : Stays (readUnary bound inner) := by
  intro tokens ended
  unfold readUnary
  split
  · rename_i next
    apply Within.skip ended next nofun
    intro ended
    apply Within.bind (stays.negation _ ended)
    rintro ⟨operand, rest⟩ ended
    exact ended.whole
  · exact readCall_stays stays _ ended

theorem readLeftChain_stays {op? : TokenKind → Option ArithOp} {operand : TokenReader Expr}
    (stays : Stays operand) (quiet : op? .endOfInput = none) (k : Nat) (left : Expr) :
    Stays (readLeftChain op? operand k left) := by
  induction k generalizing left with
  | zero => exact fun tokens ended => ended.whole
  | succ k ih =>
      intro tokens ended
      unfold readLeftChain
      split
      · rename_i op found
        apply Within.skip ended rfl (kindOf_ne_endOfInput quiet found)
        intro ended
        apply Within.bind (stays _ ended)
        rintro ⟨right, rest⟩ ended
        exact ih _ rest ended
      · exact ended.whole

theorem readProduct_stays (stays : InnerStays inner) : Stays (readProduct bound inner) := by
  intro tokens ended
  apply Within.bind (readUnary_stays stays _ ended)
  rintro ⟨left, rest⟩ ended
  exact readLeftChain_stays (readUnary_stays stays) rfl bound left rest ended

theorem readSum_stays (stays : InnerStays inner) : Stays (readSum bound inner) := by
  intro tokens ended
  apply Within.bind (readProduct_stays stays _ ended)
  rintro ⟨left, rest⟩ ended
  exact readLeftChain_stays (readProduct_stays stays) rfl bound left rest ended

theorem readComparison_stays (stays : InnerStays inner) : Stays (readComparison bound inner) := by
  intro tokens ended
  apply Within.bind (readSum_stays stays _ ended)
  rintro ⟨left, rest⟩ ended
  dsimp only
  split
  · exact ended.whole
  · rename_i op found
    apply Within.skip ended rfl (kindOf_ne_endOfInput rfl found)
    intro ended
    apply Within.bind (readSum_stays stays _ ended)
    rintro ⟨right, after⟩ ended
    dsimp only
    split
    · exact .refuse ended _
    · exact ended.whole

theorem readNot_stays (stays : InnerStays inner) : Stays (readNot bound inner) := by
  intro tokens ended
  unfold readNot
  split
  · rename_i next
    apply Within.skip ended next nofun
    intro ended
    apply Within.bind (stays.complement _ ended)
    rintro ⟨operand, rest⟩ ended
    exact ended.whole
  · exact readComparison_stays stays _ ended

theorem readRightChain_stays {word : Keyword} {join : Nat → Expr → Expr → Expr}
    {operand : TokenReader Expr} (stays : Stays operand) (k : Nat) :
    Stays (readRightChain word join operand k) := by
  induction k with
  | zero => exact stays
  | succ k ih =>
      intro tokens ended
      apply Within.bind (stays _ ended)
      rintro ⟨left, rest⟩ ended
      dsimp only
      split
      · rename_i next
        apply Within.skip ended next nofun
        intro ended
        apply Within.bind (ih _ ended)
        rintro ⟨right, after⟩ ended
        exact ended.whole
      · exact ended.whole

theorem readOr_stays (stays : InnerStays inner) : Stays (readOr bound inner) :=
  readRightChain_stays (readRightChain_stays (readNot_stays stays) bound) bound

end Expressions

theorem innerAt_stays (bound n : Nat) : InnerStays (innerAt bound n) := by
  have deep : Stays (refuse .tooDeep : TokenReader Expr) := fun _ ended => .refuse ended _
  induction n with
  | zero => exact ⟨deep, deep, deep⟩
  | succ n ih => exact ⟨readOr_stays ih, readNot_stays ih, readUnary_stays ih⟩

section Statements

variable {bound : Nat} {inLoop : Bool} {expression : TokenReader Expr}

theorem readAssignment_stays (stays : Stays expression) (line : Nat) (id : String)
    {symbol : Symbol} {tokens : List Token} (ended : Ended tokens)
    (next : kindOf tokens = .symbol symbol) :
    Within tokens Prod.snd (readAssignment expression line id symbol tokens) := by
  apply Within.skip ended next nofun
  intro ended
  apply Within.bind (stays _ ended)
  rintro ⟨e, rest⟩ ended
  dsimp only
  split <;> exact ended.whole

theorem readEvaluation_stays (stays : Stays expression) : Stays (readEvaluation expression) := by
  intro tokens ended
  apply Within.bind (stays _ ended)
  rintro ⟨e, rest⟩ ended
  dsimp only
  split
  · exact .refuse ended _
  · exact ended.whole

theorem readSimple_stays (stays : Stays expression) : Stays (readSimple expression inLoop) := by
  intro tokens ended
  unfold readSimple
  split
  · rename_i next
    exact ended.tail next nofun
  · rename_i next
    split
    · exact ended.tail next nofun
    · exact .refuse ended _
  · rename_i next
    split
    · exact ended.tail next nofun
    · exact .refuse ended _
  · rename_i id named
    split
    · rename_i symbol comes
      split
      · exact .refuse ended _
      · apply Within.skip ended named nofun
        intro ended
        exact readAssignment_stays stays _ id ended (kindOf_of_assignment? comes).1
    · exact readEvaluation_stays stays _ ended
  · exact readEvaluation_stays stays _ ended

theorem readLineEnd_within {tokens : List Token} (ended : Ended tokens) :
    Within tokens id (readLineEnd tokens) := by
  unfold readLineEnd
  split
  · rename_i next
    exact ended.tail next nofun
  · exact ended.whole
  · exact .unexpected ended _

theorem readLine_stays (stays : Stays expression) : Stays (readLine expression inLoop) := by
  intro tokens ended
  apply Within.bind (readSimple_stays stays _ ended)
  rintro ⟨s, rest⟩ ended
  apply Within.bind (readLineEnd_within ended)
  intro after ended
  exact ended.whole

theorem readStatements_stays {statement : TokenReader Stmt} (stays : Stays statement)
    (ends : TokenKind → Bool) (k : Nat) : Stays (readStatements statement ends k) := by
  induction k with
  | zero => exact fun tokens ended => ended.whole
  | succ k ih =>
      intro tokens ended
      unfold readStatements
      split
      · exact ended.whole
      · apply Within.bind (stays _ ended)
        rintro ⟨first, rest⟩ ended
        apply Within.bind (ih _ ended)
        rintro ⟨second, rest⟩ ended
        exact ended.whole

theorem readBranches_stays (stays : Stays expression) {suite : TokenReader Stmt}
    (suites : Stays suite) (k : Nat) : Stays (readBranches expression suite k) := by
  induction k with
  | zero => exact fun tokens ended => ended.whole
  | succ k ih =>
      intro tokens ended
      unfold readBranches
      dsimp only
      split
      · rename_i next
        apply Within.skip ended next nofun
        intro ended
        apply Within.bind (stays _ ended)
        rintro ⟨test, rest⟩ ended
        apply Within.bind (suites _ ended)
        rintro ⟨body, rest⟩ ended
        apply Within.bind (ih _ ended)
        rintro ⟨branches, rest⟩ ended
        exact ended.whole
      · rename_i next
        apply Within.skip ended next nofun
        intro ended
        apply Within.bind (suites _ ended)
        rintro ⟨body, rest⟩ ended
        exact ended.whole
      · exact ended.whole

section Suites

variable {suite : SuiteReader} (stays : Stays expression)
  (suites : ∀ inLoop, Stays (suite inLoop))

include stays suites

theorem readIf_stays {tokens : List Token} (ended : Ended tokens)
    (next : kindOf tokens = .keyword .if) :
    Within tokens Prod.snd (readIf bound expression (suite inLoop) tokens) := by
  apply Within.skip ended next nofun
  intro ended
  apply Within.bind (stays _ ended)
  rintro ⟨test, rest⟩ ended
  apply Within.bind (suites inLoop _ ended)
  rintro ⟨body, rest⟩ ended
  apply Within.bind (readBranches_stays stays (suites inLoop) bound _ ended)
  rintro ⟨branches, rest⟩ ended
  exact ended.whole

theorem readWhile_stays {tokens : List Token} (ended : Ended tokens)
    (next : kindOf tokens = .keyword .while) :
    Within tokens Prod.snd (readWhile expression suite tokens) := by
  apply Within.skip ended next nofun
  intro ended
  apply Within.bind (stays _ ended)
  rintro ⟨test, rest⟩ ended
  apply Within.bind (suites true _ ended)
  rintro ⟨body, rest⟩ ended
  exact ended.whole

theorem readFor_stays {tokens : List Token} (ended : Ended tokens)
    (next : kindOf tokens = .keyword .for) :
    Within tokens Prod.snd (readFor expression suite tokens) := by
  apply Within.skip ended next nofun
  intro ended
  unfold readFor
  dsimp only
  split
  · rename_i id named
    split
    · exact .refuse ended _
    · apply Within.skip ended named nofun
      intro ended
      refine .bind (.expect ended nofun) fun rest ended => ?_
      apply Within.bind (stays _ ended)
      rintro ⟨iterable, rest⟩ ended
      apply Within.bind (suites true _ ended)
      rintro ⟨body, rest⟩ ended
      exact ended.whole
  · exact .unexpected ended _

theorem readStatement_stays : Stays (readStatement bound expression suite inLoop) := by
  intro tokens ended
  unfold readStatement
  split
  · rename_i next
    exact readIf_stays stays suites ended next
  · rename_i next
    exact readWhile_stays stays suites ended next
  · rename_i next
    exact readFor_stays stays suites ended next
  · exact readLine_stays stays _ ended

theorem readBlock_stays : Stays (readBlock bound expression suite inLoop) := by
  intro tokens ended
  unfold readBlock
  dsimp only
  split
  · rename_i next
    apply Within.skip ended next nofun
    intro ended
    split
    · rename_i next
      have statement : Stays (readStatement bound expression suite inLoop) :=
        readStatement_stays stays suites
      apply Within.skip ended next nofun
      intro ended
      apply Within.bind (readStatements_stays statement _ bound _ ended)
      rintro ⟨body, rest⟩ ended
      -- a block that goes on to the end of the input may have no dedent
      change LeftOf rest (if kindOf rest = .dedent then rest.tail else rest)
      split
      · rename_i next
        exact ended.tail next nofun
      · exact ended.whole
    · exact .refuse ended _
  · exact readLine_stays stays _ ended

end Suites

end Statements

theorem suiteAt_stays (bound n : Nat) (inLoop : Bool) : Stays (suiteAt bound n inLoop) := by
  induction n generalizing inLoop with
  | zero =>
      intro tokens ended
      exact .bind (.expect ended nofun) fun rest ended => .refuse ended _
  | succ n ih =>
      intro tokens ended
      refine .bind (.expect ended nofun) fun rest ended => ?_
      exact readBlock_stays (innerAt_stays bound n).expression ih _ ended

theorem Script.ofTokens?_refusal {tokens : List Token} {refusal : Refusal} (ended : Ended tokens)
    (refused : ofTokens? tokens = .error refusal) :
    ∃ t ∈ tokens, refusal.position = t.position := by
  have statement : Stays (readTopLevel tokens.length) :=
    readStatement_stays (innerAt_stays _ maxNesting).expression (suiteAt_stays _ maxNesting)
  have within := readStatements_stays statement (· = .endOfInput) tokens.length _ ended
  unfold ofTokens? at refused
  dsimp only at refused
  cases read : readStatements (readTopLevel tokens.length) (· = .endOfInput) tokens.length
    tokens with
  | ok result =>
      rw [read] at refused
      cases refused
  | error found =>
      rw [read] at refused within
      cases refused
      exact within

end LessonScript
