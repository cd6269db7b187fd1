import LessonScript.Proofs.Grammar
import LessonScript.Script.StmtReader

/-!
What a reader has read that succeeds.

For each reader with a choice there is one relation, which lists the ways in which it can succeed,
and one theorem, which says that there is no other.  Whatever holds of all that is read, the tokens
that were taken, the tokens that are left or the tree that was made, is proved way by way.
-/

namespace LessonScript

open TokenReader

theorem exists_of_goesOn {tokens : List Token} (goesOn : kindOf tokens ≠ .endOfInput) :
    ∃ t rest, tokens = t :: rest := by
  cases tokens with
  | nil => exact absurd rfl goesOn
  | cons t rest => exact ⟨t, rest, rfl⟩

theorem exists_of_kindOf {tokens : List Token} {kind : TokenKind} (reads : kindOf tokens = kind)
    (goesOn : kind ≠ .endOfInput) : ∃ t rest, tokens = t :: rest ∧ t.kind = kind := by
  rw [← reads] at goesOn
  obtain ⟨t, rest, rfl⟩ := exists_of_goesOn goesOn
  exact ⟨t, rest, rfl, reads⟩

theorem unexpected_ne_ok {α : Type} {a : α} (wanted : String) (tokens : List Token) :
    unexpected wanted tokens ≠ .ok a := by
  unfold unexpected
  split
  · exact nofun
  · split
    · exact nofun
    · exact nofun
  · exact nofun
  · exact nofun

theorem expect_cases {tokens rest : List Token} {kind : TokenKind}
    (done : expect kind tokens = .ok rest) : kindOf tokens = kind ∧ rest = tokens.tail := by
  unfold expect at done
  split at done
  · rename_i reads
    cases done
    exact ⟨reads, rfl⟩
  · exact absurd done (unexpected_ne_ok _ _)

theorem exists_of_expect {tokens rest : List Token} {kind : TokenKind}
    (done : expect kind tokens = .ok rest) (goesOn : kind ≠ .endOfInput) :
    ∃ t, tokens = t :: rest ∧ t.kind = kind := by
  obtain ⟨reads, rfl⟩ := expect_cases done
  obtain ⟨t, others, rfl, reads⟩ := exists_of_kindOf reads goesOn
  exact ⟨t, rfl, reads⟩

namespace ExprReader

variable {inner : Inner} {bound k : Nat} {tokens rest : List Token} {e callee left : Expr}
  {args : List Expr}

inductive PrimaryRead (inner : Inner) (tokens : List Token) : Expr → List Token → Prop
  | literal {l : Literal} (denotes : (kindOf tokens).literal? = some l) :
      PrimaryRead inner tokens (.literal (lineOf tokens) l) tokens.tail
  | name {id : String} (names : kindOf tokens = .name id) (free : isReserved id = false) :
      PrimaryRead inner tokens (.name (lineOf tokens) id) tokens.tail
  | parentheses {e : Expr} {behind rest : List Token}
      (opening : kindOf tokens = .symbol .leftParen)
      (read : inner.expression tokens.tail = .ok (e, behind))
      (closing : expect (.symbol .rightParen) behind = .ok rest) :
      PrimaryRead inner tokens e rest

theorem readPrimary_cases (done : readPrimary inner tokens = .ok (e, rest)) :
    PrimaryRead inner tokens e rest := by
  have literal {l : Literal} (denotes : (kindOf tokens).literal? = some l)
      (read : (.ok (.literal (lineOf tokens) l, tokens.tail) : Except Refusal _) = .ok (e, rest)) :
      PrimaryRead inner tokens e rest := by
    cases read
    exact .literal denotes
  have refused (unexpected : TokenReader.unexpected "an expression" tokens = .ok (e, rest)) :
      PrimaryRead inner tokens e rest :=
    absurd unexpected (unexpected_ne_ok _ _)
  unfold readPrimary at done
  dsimp only at done
  cases reads : kindOf tokens with
  | int | float | str =>
      rw [reads] at literal done
      exact literal rfl done
  | keyword word =>
      rw [reads] at literal done
      cases word with
      | true | false | nothing => exact literal rfl done
      | _ => exact refused done
  | name id =>
      rw [reads] at done
      change (if isReserved id = true then _ else _) = _ at done
      split at done
      · cases done
      · rename_i free
        cases done
        exact .name reads (Bool.eq_false_iff.mpr free)
  | symbol s =>
      rw [reads] at done
      cases s with
      | leftParen =>
          obtain ⟨⟨e, behind⟩, read, onward⟩ := exists_of_bind_ok done
          obtain ⟨closed, expected, finish⟩ := exists_of_bind_ok onward
          cases finish
          exact .parentheses reads read expected
      | _ => exact refused done
  | _ =>
      rw [reads] at done
      exact refused done

inductive ArgumentsRead (inner : Inner) (k : Nat) (tokens : List Token) :
    List Expr → List Token → Prop
  | none : ArgumentsRead inner k tokens [] tokens
  | more {arg : Expr} {args : List Expr} {behind rest : List Token}
      (read : inner.expression tokens = .ok (arg, behind))
      (between : kindOf behind = .symbol .comma)
      (others : readArguments inner k behind.tail = .ok (args, rest)) :
      ArgumentsRead inner k tokens (arg :: args) rest
  | last {arg : Expr} {rest : List Token} (read : inner.expression tokens = .ok (arg, rest)) :
      ArgumentsRead inner k tokens [arg] rest

theorem readArguments_cases (done : readArguments inner (k + 1) tokens = .ok (args, rest)) :
    ArgumentsRead inner k tokens args rest := by
  unfold readArguments at done
  split at done
  · cases done
    exact .none
  · obtain ⟨⟨arg, behind⟩, read, onward⟩ := exists_of_bind_ok done
    dsimp only at onward
    split at onward
    · rename_i between
      obtain ⟨⟨args, after⟩, others, finish⟩ := exists_of_bind_ok onward
      cases finish
      exact .more read between others
    · cases onward
      exact .last read

inductive CallsRead (inner : Inner) (arguments k : Nat) (callee : Expr) (tokens : List Token) :
    Expr → List Token → Prop
  | none : CallsRead inner arguments k callee tokens callee tokens
  | more {args : List Expr} {e : Expr} {behind after rest : List Token}
      (opening : kindOf tokens = .symbol .leftParen)
      (read : readArguments inner arguments tokens.tail = .ok (args, behind))
      (closing : expect (.symbol .rightParen) behind = .ok after)
      (others : readCalls inner arguments k (.call (lineOf tokens) callee args) after =
        .ok (e, rest)) :
      CallsRead inner arguments k callee tokens e rest

theorem readCalls_cases {arguments : Nat}
    (done : readCalls inner arguments (k + 1) callee tokens = .ok (e, rest)) :
    CallsRead inner arguments k callee tokens e rest := by
  unfold readCalls at done
  split at done
  · rename_i opening
    obtain ⟨⟨args, behind⟩, read, onward⟩ := exists_of_bind_ok done
    obtain ⟨after, closing, others⟩ := exists_of_bind_ok onward
    exact .more opening read closing others
  · cases done
    exact .none

inductive UnaryRead (bound : Nat) (inner : Inner) (tokens : List Token) :
    Expr → List Token → Prop
  | negate {operand : Expr} {rest : List Token} (sign : kindOf tokens = .symbol .minus)
      (read : inner.negation tokens.tail = .ok (operand, rest)) :
      UnaryRead bound inner tokens (.negate (lineOf tokens) operand) rest
  | call {e : Expr} {rest : List Token} (read : readCall bound inner tokens = .ok (e, rest)) :
      UnaryRead bound inner tokens e rest

theorem readUnary_cases (done : readUnary bound inner tokens = .ok (e, rest)) :
    UnaryRead bound inner tokens e rest := by
  unfold readUnary at done
  split at done
  · rename_i sign
    obtain ⟨⟨operand, behind⟩, read, onward⟩ := exists_of_bind_ok done
    cases onward
    exact .negate sign read
  · exact .call done

inductive LeftChainRead (op? : TokenKind → Option ArithOp) (operand : TokenReader Expr) (k : Nat)
    (left : Expr) (tokens : List Token) : Expr → List Token → Prop
  | none : LeftChainRead op? operand k left tokens left tokens
  | more {op : ArithOp} {right e : Expr} {behind rest : List Token}
      (denotes : op? (kindOf tokens) = some op)
      (read : operand tokens.tail = .ok (right, behind))
      (others : readLeftChain op? operand k (.arith (lineOf tokens) op left right) behind =
        .ok (e, rest)) :
      LeftChainRead op? operand k left tokens e rest

theorem readLeftChain_cases {op? : TokenKind → Option ArithOp} {operand : TokenReader Expr}
    (done : readLeftChain op? operand (k + 1) left tokens = .ok (e, rest)) :
    LeftChainRead op? operand k left tokens e rest := by
  unfold readLeftChain at done
  split at done
  · rename_i op denotes
    obtain ⟨⟨right, behind⟩, read, others⟩ := exists_of_bind_ok done
    exact .more denotes read others
  · cases done
    exact .none

inductive ComparisonRead (bound : Nat) (inner : Inner) (tokens : List Token) :
    Expr → List Token → Prop
  | single {e : Expr} {rest : List Token} (read : readSum bound inner tokens = .ok (e, rest)) :
      ComparisonRead bound inner tokens e rest
  | compare {op : CompareOp} {l r : Expr} {behind rest : List Token}
      (readLeft : readSum bound inner tokens = .ok (l, behind))
      (denotes : compareOp? (kindOf behind) = some op)
      (readRight : readSum bound inner behind.tail = .ok (r, rest)) :
      ComparisonRead bound inner tokens (.compare (lineOf behind) op l r) rest

theorem readComparison_cases (done : readComparison bound inner tokens = .ok (e, rest)) :
    ComparisonRead bound inner tokens e rest := by
  obtain ⟨⟨l, behind⟩, readLeft, onward⟩ := exists_of_bind_ok done
  dsimp only at onward
  split at onward
  · cases onward
    exact .single readLeft
  · rename_i op denotes
    obtain ⟨⟨r, after⟩, readRight, finish⟩ := exists_of_bind_ok onward
    dsimp only at finish
    split at finish
    · cases finish
    · cases finish
      exact .compare readLeft denotes readRight

inductive NotRead (bound : Nat) (inner : Inner) (tokens : List Token) : Expr → List Token → Prop
  | complement {operand : Expr} {rest : List Token} (word : kindOf tokens = .keyword .not)
      (read : inner.complement tokens.tail = .ok (operand, rest)) :
      NotRead bound inner tokens (.complement (lineOf tokens) operand) rest
  | comparison {e : Expr} {rest : List Token}
      (read : readComparison bound inner tokens = .ok (e, rest)) :
      NotRead bound inner tokens e rest

theorem readNot_cases (done : readNot bound inner tokens = .ok (e, rest)) :
    NotRead bound inner tokens e rest := by
  unfold readNot at done
  split at done
  · rename_i word
    obtain ⟨⟨operand, behind⟩, read, onward⟩ := exists_of_bind_ok done
    cases onward
    exact .complement word read
  · exact .comparison done

inductive RightChainRead (word : Keyword) (join : Nat → Expr → Expr → Expr)
    (operand : TokenReader Expr) (k : Nat) (tokens : List Token) : Expr → List Token → Prop
  | single {e : Expr} {rest : List Token} (read : operand tokens = .ok (e, rest)) :
      RightChainRead word join operand k tokens e rest
  | more {l r : Expr} {behind rest : List Token} (read : operand tokens = .ok (l, behind))
      (goesOn : kindOf behind = .keyword word)
      (others : readRightChain word join operand k behind.tail = .ok (r, rest)) :
      RightChainRead word join operand k tokens (join (lineOf behind) l r) rest

theorem readRightChain_cases {word : Keyword} {join : Nat → Expr → Expr → Expr}
    {operand : TokenReader Expr}
    (done : readRightChain word join operand (k + 1) tokens = .ok (e, rest)) :
    RightChainRead word join operand k tokens e rest := by
  obtain ⟨⟨l, behind⟩, read, onward⟩ := exists_of_bind_ok done
  dsimp only at onward
  split at onward
  · rename_i goesOn
    obtain ⟨⟨r, after⟩, others, finish⟩ := exists_of_bind_ok onward
    cases finish
    exact .more read goesOn others
  · cases onward
    exact .single read

end ExprReader

namespace StmtReader

variable {expression : TokenReader Expr} {suite : SuiteReader} {inLoop : Bool} {bound k : Nat}
  {tokens rest : List Token} {s : Stmt} {branches : Option (Nat × Stmt)}

inductive AssignmentRead (expression : TokenReader Expr) (line : Nat) (id : String)
    (symbol : Symbol) (tokens : List Token) : Stmt → List Token → Prop
  | assign {e : Expr} {rest : List Token} (plain : augmentOp? symbol = none)
      (read : expression tokens.tail = .ok (e, rest)) :
      AssignmentRead expression line id symbol tokens (.assign line id e) rest
  | augment {op : ArithOp} {e : Expr} {rest : List Token} (augments : augmentOp? symbol = some op)
      (read : expression tokens.tail = .ok (e, rest)) :
      AssignmentRead expression line id symbol tokens (.augment line id op (lineOf tokens) e) rest

theorem readAssignment_cases {line : Nat} {id : String} {symbol : Symbol}
    (done : readAssignment expression line id symbol tokens = .ok (s, rest)) :
    AssignmentRead expression line id symbol tokens s rest := by
  obtain ⟨⟨e, behind⟩, read, onward⟩ := exists_of_bind_ok done
  dsimp only at onward
  split at onward
  · rename_i plain
    cases onward
    exact .assign plain read
  · rename_i op augments
    cases onward
    exact .augment augments read

inductive SimpleRead (expression : TokenReader Expr) (inLoop : Bool) (tokens : List Token) :
    Stmt → List Token → Prop
  | pass (word : kindOf tokens = .keyword .pass) :
      SimpleRead expression inLoop tokens .skip tokens.tail
  | breakLoop (word : kindOf tokens = .keyword .break) (inside : inLoop = true) :
      SimpleRead expression inLoop tokens (.breakLoop (lineOf tokens)) tokens.tail
  | continueLoop (word : kindOf tokens = .keyword .continue) (inside : inLoop = true) :
      SimpleRead expression inLoop tokens (.continueLoop (lineOf tokens)) tokens.tail
  | assignment {id : String} {symbol : Symbol} {s : Stmt} {rest : List Token}
      (names : kindOf tokens = .name id) (free : isReserved id = false)
      (sign : kindOf tokens.tail = .symbol symbol) (assigns : symbol.isAssignment = true)
      (read : AssignmentRead expression (lineOf tokens) id symbol tokens.tail s rest) :
      SimpleRead expression inLoop tokens s rest
  | evaluate {e : Expr} {rest : List Token} (read : expression tokens = .ok (e, rest)) :
      SimpleRead expression inLoop tokens (.evaluate (lineOf tokens) e) rest

theorem readEvaluation_cases (done : readEvaluation expression tokens = .ok (s, rest)) :
    SimpleRead expression inLoop tokens s rest := by
  obtain ⟨⟨e, behind⟩, read, onward⟩ := exists_of_bind_ok done
  dsimp only at onward
  split at onward
  · cases onward
  · cases onward
    exact .evaluate read

theorem readSimple_cases (done : readSimple expression inLoop tokens = .ok (s, rest)) :
    SimpleRead expression inLoop tokens s rest := by
  unfold readSimple at done
  split at done
  · rename_i word
    cases done
    exact .pass word
  · rename_i word
    split at done
    · rename_i inside
      cases done
      exact .breakLoop word inside
    · cases done
  · rename_i word
    split at done
    · rename_i inside
      cases done
      exact .continueLoop word inside
    · cases done
  · rename_i id names
    split at done
    · rename_i symbol found
      split at done
      · cases done
      · rename_i free
        obtain ⟨sign, assigns⟩ := kindOf_of_assignment? found
        exact .assignment names (Bool.eq_false_iff.mpr free) sign assigns
          (readAssignment_cases done)
    · exact readEvaluation_cases done
  · exact readEvaluation_cases done

inductive LineRead (expression : TokenReader Expr) (inLoop : Bool) (tokens : List Token) :
    Stmt → List Token → Prop
  | newline {s : Stmt} {behind : List Token}
      (read : readSimple expression inLoop tokens = .ok (s, behind))
      (ends : kindOf behind = .newline) : LineRead expression inLoop tokens s behind.tail
  | exhausted {s : Stmt} {rest : List Token}
      (read : readSimple expression inLoop tokens = .ok (s, rest))
      (ends : kindOf rest = .endOfInput) : LineRead expression inLoop tokens s rest

theorem readLine_cases (done : readLine expression inLoop tokens = .ok (s, rest)) :
    LineRead expression inLoop tokens s rest := by
  obtain ⟨⟨s, behind⟩, read, onward⟩ := exists_of_bind_ok done
  obtain ⟨left, ended, finish⟩ := exists_of_bind_ok onward
  cases finish
  change readLineEnd behind = _ at ended
  unfold readLineEnd at ended
  split at ended
  · rename_i ends
    cases ended
    exact .newline read ends
  · rename_i ends
    cases ended
    exact .exhausted read ends
  · exact absurd ended (unexpected_ne_ok _ _)

inductive StatementsRead (statement : TokenReader Stmt) (ends : TokenKind → Bool) (k : Nat)
    (tokens : List Token) : Stmt → List Token → Prop
  | none (ended : ends (kindOf tokens) = true) : StatementsRead statement ends k tokens .skip tokens
  | more {first second : Stmt} {behind rest : List Token}
      (read : statement tokens = .ok (first, behind))
      (others : readStatements statement ends k behind = .ok (second, rest)) :
      StatementsRead statement ends k tokens (.seq first second) rest

theorem readStatements_cases {statement : TokenReader Stmt} {ends : TokenKind → Bool}
    (done : readStatements statement ends (k + 1) tokens = .ok (s, rest)) :
    StatementsRead statement ends k tokens s rest := by
  unfold readStatements at done
  split at done
  · rename_i ended
    cases done
    exact .none ended
  · obtain ⟨⟨first, behind⟩, read, onward⟩ := exists_of_bind_ok done
    obtain ⟨⟨second, after⟩, others, finish⟩ := exists_of_bind_ok onward
    cases finish
    exact .more read others

/-- A condition, its suite and the branches behind them, all behind the word that comes next. -/
inductive GuardedRead (expression : TokenReader Expr) (suite : TokenReader Stmt) (k : Nat)
    (tokens : List Token) : Expr → Stmt → Option (Nat × Stmt) → List Token → Prop
  | intro {test : Expr} {body : Stmt} {branches : Option (Nat × Stmt)}
      {behind after rest : List Token}
      (readTest : expression tokens.tail = .ok (test, behind))
      (readBody : suite behind = .ok (body, after))
      (readBranches : readBranches expression suite k after = .ok (branches, rest)) :
      GuardedRead expression suite k tokens test body branches rest

inductive BranchesRead (expression : TokenReader Expr) (suite : TokenReader Stmt) (k : Nat)
    (tokens : List Token) : Option (Nat × Stmt) → List Token → Prop
  | none : BranchesRead expression suite k tokens none tokens
  | elifBranch {test : Expr} {body : Stmt} {branches : Option (Nat × Stmt)} {rest : List Token}
      (word : kindOf tokens = .keyword .elif)
      (guarded : GuardedRead expression suite k tokens test body branches rest) :
      BranchesRead expression suite k tokens
        (some (lineOf tokens, conditional (lineOf tokens) test body branches)) rest
  | elseBranch {body : Stmt} {rest : List Token} (word : kindOf tokens = .keyword .else)
      (readBody : suite tokens.tail = .ok (body, rest)) :
      BranchesRead expression suite k tokens (some (lineOf tokens, body)) rest

theorem readBranches_cases {suite : TokenReader Stmt}
    (done : readBranches expression suite (k + 1) tokens = .ok (branches, rest)) :
    BranchesRead expression suite k tokens branches rest := by
  unfold readBranches at done
  dsimp only at done
  split at done
  · rename_i word
    obtain ⟨⟨test, behind⟩, readTest, onward⟩ := exists_of_bind_ok done
    obtain ⟨⟨body, after⟩, readBody, finish⟩ := exists_of_bind_ok onward
    obtain ⟨⟨branches, behindAll⟩, readRest, ended⟩ := exists_of_bind_ok finish
    cases ended
    exact .elifBranch word (.intro readTest readBody readRest)
  · rename_i word
    obtain ⟨⟨body, after⟩, readBody, onward⟩ := exists_of_bind_ok done
    cases onward
    exact .elseBranch word readBody
  · cases done
    exact .none

inductive StatementRead (bound : Nat) (expression : TokenReader Expr) (suite : SuiteReader)
    (inLoop : Bool) (tokens : List Token) : Stmt → List Token → Prop
  | conditional {test : Expr} {body : Stmt} {branches : Option (Nat × Stmt)} {rest : List Token}
      (word : kindOf tokens = .keyword .if)
      (guarded : GuardedRead expression (suite inLoop) bound tokens test body branches rest) :
      StatementRead bound expression suite inLoop tokens
        (conditional (lineOf tokens) test body branches) rest
  | whileLoop {test : Expr} {body : Stmt} {behind rest : List Token}
      (word : kindOf tokens = .keyword .while)
      (readTest : expression tokens.tail = .ok (test, behind))
      (readBody : suite true behind = .ok (body, rest)) :
      StatementRead bound expression suite inLoop tokens
        (.whileLoop (lineOf tokens) test body) rest
  | forLoop {id : String} {iterable : Expr} {body : Stmt} {behind after rest : List Token}
      (word : kindOf tokens = .keyword .for) (names : kindOf tokens.tail = .name id)
      (free : isReserved id = false)
      (between : expect (.keyword .in) tokens.tail.tail = .ok behind)
      (readIterable : expression behind = .ok (iterable, after))
      (readBody : suite true after = .ok (body, rest)) :
      StatementRead bound expression suite inLoop tokens
        (.forLoop (lineOf tokens) id iterable body) rest
  | line {s : Stmt} {rest : List Token} (read : readLine expression inLoop tokens = .ok (s, rest)) :
      StatementRead bound expression suite inLoop tokens s rest

theorem readIf_cases (word : kindOf tokens = .keyword .if)
    (done : readIf bound expression (suite inLoop) tokens = .ok (s, rest)) :
    StatementRead bound expression suite inLoop tokens s rest := by
  obtain ⟨⟨test, behind⟩, readTest, onward⟩ := exists_of_bind_ok done
  obtain ⟨⟨body, after⟩, readBody, finish⟩ := exists_of_bind_ok onward
  obtain ⟨⟨branches, behindAll⟩, readRest, ended⟩ := exists_of_bind_ok finish
  cases ended
  exact .conditional word (.intro readTest readBody readRest)

theorem readWhile_cases (word : kindOf tokens = .keyword .while)
    (done : readWhile expression suite tokens = .ok (s, rest)) :
    StatementRead bound expression suite inLoop tokens s rest := by
  obtain ⟨⟨test, behind⟩, readTest, onward⟩ := exists_of_bind_ok done
  obtain ⟨⟨body, after⟩, readBody, finish⟩ := exists_of_bind_ok onward
  cases finish
  exact .whileLoop word readTest readBody

theorem readFor_cases (word : kindOf tokens = .keyword .for)
    (done : readFor expression suite tokens = .ok (s, rest)) :
    StatementRead bound expression suite inLoop tokens s rest := by
  unfold readFor at done
  dsimp only at done
  split at done
  · rename_i id names
    split at done
    · cases done
    · rename_i free
      obtain ⟨behind, between, onward⟩ := exists_of_bind_ok done
      obtain ⟨⟨iterable, after⟩, readIterable, finish⟩ := exists_of_bind_ok onward
      obtain ⟨⟨body, behindBody⟩, readBody, ended⟩ := exists_of_bind_ok finish
      cases ended
      exact .forLoop word names (Bool.eq_false_iff.mpr free) between readIterable readBody
  · exact absurd done (unexpected_ne_ok _ _)

theorem readStatement_cases
    (done : readStatement bound expression suite inLoop tokens = .ok (s, rest)) :
    StatementRead bound expression suite inLoop tokens s rest := by
  unfold readStatement at done
  split at done
  · exact readIf_cases ‹_› done
  · exact readWhile_cases ‹_› done
  · exact readFor_cases ‹_› done
  · exact .line done

/-- The statements of a block are read up to a token that ends it; a dedent is taken too. -/
inductive BlockRead (bound : Nat) (expression : TokenReader Expr) (suite : SuiteReader)
    (inLoop : Bool) (tokens : List Token) : Stmt → List Token → Prop
  | indented {body : Stmt} {behind : List Token} (ends : kindOf tokens = .newline)
      (opens : kindOf tokens.tail = .indent)
      (readBody : readStatements (readStatement bound expression suite inLoop) endsBlock bound
        tokens.tail.tail = .ok (body, behind)) :
      BlockRead bound expression suite inLoop tokens body
        (if kindOf behind = .dedent then behind.tail else behind)
  | line {s : Stmt} {rest : List Token} (read : readLine expression inLoop tokens = .ok (s, rest)) :
      BlockRead bound expression suite inLoop tokens s rest

theorem readBlock_cases (done : readBlock bound expression suite inLoop tokens = .ok (s, rest)) :
    BlockRead bound expression suite inLoop tokens s rest := by
  unfold readBlock at done
  dsimp only at done
  split at done
  · rename_i ends
    split at done
    · rename_i opens
      obtain ⟨⟨body, behind⟩, readBody, onward⟩ := exists_of_bind_ok done
      cases onward
      exact .indented ends opens readBody
    · cases done
  · exact .line done

theorem suiteAt_cases {n : Nat} (done : suiteAt bound n inLoop tokens = .ok (s, rest)) :
    ∃ m behind, n = m + 1 ∧ expect (.symbol .colon) tokens = .ok behind ∧
      readBlock bound (ExprReader.innerAt bound m).expression (suiteAt bound m) inLoop behind =
        .ok (s, rest) := by
  cases n with
  | zero =>
      obtain ⟨behind, _, onward⟩ := exists_of_bind_ok done
      cases onward
  | succ m =>
      obtain ⟨behind, expected, onward⟩ := exists_of_bind_ok done
      exact ⟨m, behind, rfl, expected, onward⟩

end StmtReader

end LessonScript
