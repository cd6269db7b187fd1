import LessonScript.Proofs.LiteralText
import LessonScript.Proofs.References
import LessonScript.Proofs.StmtAccepted

/-!
The literals and names of a script can be written in a listing.

A token of a text never denotes a name that is no name in a listing, nor a literal without a text
of its own, and a reader puts nothing else into a tree.  So the tables of a script have only
entries that a listing can hold (`Tables.listable_of_read`).
-/

namespace LessonScript

open TokenReader ExprReader StmtReader

/-- The name or literal of the token, if it has one, can be written in a listing. -/
def TokenKind.Listable : TokenKind → Prop
  | .name id => Assembly.isName id.toList = true
  | .float x => x.isNaN = false
  | _ => True

theorem scanString_listable (quote : Char) (cs value taken : List Char) :
    (Lexeme.scanString quote cs value taken).kind.Listable := by
  fun_induction Lexeme.scanString quote cs value taken
  case case4 ih | case7 ih => exact ih
  case case1 | case2 | case3 | case5 | case6 => trivial

theorem splitSign_of_first {c : Char} (first : c.isDigit = true ∨ c = '.') (rest : List Char) :
    Text.splitSign (c :: rest) = (false, c :: rest) := by
  rcases first with digit | rfl
  · exact Text.splitSign_of_digit digit rest
  · rfl

theorem numberKind_listable {c : Char} (first : c.isDigit = true ∨ c = '.') (isFloat : Bool)
    (tail : List Char) : (Lexeme.numberKind isFloat (c :: tail)).Listable := by
  unfold Lexeme.numberKind
  split
  · split
    · rename_i x read
      apply Assembly.isNaN_of_ofChars? read
      intro d others body
      rw [splitSign_of_first first] at body
      cases body
      rcases first with digit | rfl
      · exact Assembly.isNumberChar_of_isDigit digit
      · rfl
    · trivial
  · split <;> trivial

theorem scanNumber_listable {c : Char} (first : c.isDigit = true ∨ c = '.') (cs : List Char) :
    (Lexeme.scanNumber c cs).kind.Listable := by
  unfold Lexeme.scanNumber
  dsimp only
  split
  · exact numberKind_listable first _ _
  · trivial

theorem scanWord_listable {c : Char} (starts : Text.isNameStart c = true) (cs : List Char) :
    (Lexeme.scanWord c cs).kind.Listable := by
  have name : Assembly.isName (c :: cs.takeWhile Text.isNamePart) = true := by
    simp only [Assembly.isName, starts, Bool.true_and, List.all_eq_true]
    exact fun d member => List.mem_takeWhile_imp member
  unfold Lexeme.scanWord Lexeme.wordKind
  dsimp only [Text.cutWhile]
  split
  · trivial
  · exact (congrArg Assembly.isName String.toList_ofList).trans name

theorem scanSymbol_listable (c : Char) (cs : List Char) :
    (Lexeme.scanSymbol c cs).kind.Listable := by
  have single (cs : List Char) : (Lexeme.scanSingle c cs).kind.Listable := by
    unfold Lexeme.scanSingle
    split <;> trivial
  unfold Lexeme.scanSymbol
  split
  · split
    · trivial
    · exact single _
  · exact single _

theorem scan_listable (c : Char) (cs : List Char) : (Lexeme.scan c cs).kind.Listable := by
  unfold Lexeme.scan
  split
  · exact scanString_listable _ _ _ _
  · split
    · rename_i first
      simp only [Bool.or_eq_true, Bool.and_eq_true, beq_iff_eq] at first
      exact scanNumber_listable (first.imp_right And.left) _
    · split
      · rename_i starts
        exact scanWord_listable starts _
      · exact scanSymbol_listable _ _

def TokensListable (tokens : List Token) : Prop :=
  ∀ t ∈ tokens, t.kind.Listable

theorem TokenKind.listable_of_isMark {kind : TokenKind} (isMark : kind.isMark = true) :
    kind.Listable := by
  cases kind with
  | name | float => cases isMark
  | _ => trivial

theorem tokenize_listable (source : String) : TokensListable (tokenize source) := by
  intro t member
  rcases (Lexer.start source.toList).tokensFrom_cases t member with isMark | read
  · exact TokenKind.listable_of_isMark isMark
  · obtain ⟨c, after, _, kind, _⟩ := read
    rw [kind]
    exact scan_listable c after

/-- All entries can be written in a listing and are told apart there. -/
structure Tables.Listable (t : Tables) : Prop where
  literals : ∀ l ∈ t.literals, l.Canonical
  names : ∀ id ∈ t.names, Assembly.isName id.toList = true

theorem Tables.Listable.literal {t : Tables} (listable : t.Listable) {l : Literal}
    (canonical : l.Canonical) : Tables.Listable ⟨l :: t.literals, t.names⟩ :=
  ⟨List.forall_mem_cons.mpr ⟨canonical, listable.literals⟩, listable.names⟩

theorem Tables.Listable.name {t : Tables} (listable : t.Listable) {id : String}
    (name : Assembly.isName id.toList = true) : Tables.Listable ⟨t.literals, id :: t.names⟩ :=
  ⟨listable.literals, List.forall_mem_cons.mpr ⟨name, listable.names⟩⟩

/-- What the expression puts in front of the entries of a table can be written in a listing. -/
def Expr.Listable (e : Expr) : Prop :=
  ∀ t : Tables, t.Listable →
    Tables.Listable ⟨e.literalsBefore t.literals, e.namesBefore t.names⟩

def AllListable (es : List Expr) : Prop :=
  ∀ t : Tables, t.Listable →
    Tables.Listable ⟨literalsOfAllBefore es t.literals, namesOfAllBefore es t.names⟩

/-- What the statement puts in front of the entries of a table can be written in a listing. -/
def Stmt.Listable (s : Stmt) : Prop :=
  ∀ t : Tables, t.Listable →
    Tables.Listable ⟨s.literalsBefore t.literals, s.namesBefore t.names⟩

/-- From tokens that can be written in a listing the reader leaves such tokens, with a result of
this kind. -/
def Keeps {α : Type} (reader : TokenReader α) (Q : α → Prop) : Prop :=
  ∀ tokens a rest, TokensListable tokens → reader tokens = .ok (a, rest) →
    Q a ∧ TokensListable rest

theorem TokensListable.tail {tokens : List Token} (listable : TokensListable tokens) :
    TokensListable tokens.tail :=
  fun t member => listable t (List.mem_of_mem_tail member)

theorem TokensListable.kindOf {tokens : List Token} (listable : TokensListable tokens) :
    (kindOf tokens).Listable := by
  cases tokens with
  | nil => trivial
  | cons t rest => exact listable t (List.mem_cons_self ..)

theorem TokensListable.expect {tokens rest : List Token} {kind : TokenKind}
    (listable : TokensListable tokens) (done : expect kind tokens = .ok rest) :
    TokensListable rest := by
  obtain ⟨_, rfl⟩ := expect_cases done
  exact listable.tail

theorem canonical_of_literal? {kind : TokenKind} {l : Literal} (denotes : kind.literal? = some l)
    (listable : kind.Listable) : l.Canonical := by
  intro x same nonNumber
  rcases TokenKind.of_literal? denotes with ⟨_, _, rfl⟩ | ⟨y, rfl, rfl⟩ | ⟨_, _, rfl⟩ | ⟨_, rfl⟩ |
    ⟨_, rfl⟩ | ⟨_, rfl⟩
  case inr.inl =>
    cases same
    rw [show x.isNaN = false from listable] at nonNumber
    cases nonNumber
  all_goals cases same

structure InnerKeeps (inner : Inner) : Prop where
  expression : Keeps inner.expression Expr.Listable
  complement : Keeps inner.complement Expr.Listable
  negation : Keeps inner.negation Expr.Listable

section Expressions

variable {inner : Inner} {bound : Nat}

theorem readPrimary_keeps (keeps : InnerKeeps inner) :
    Keeps (readPrimary inner) Expr.Listable := by
  intro tokens e rest listable done
  cases readPrimary_cases done with
  | literal denotes =>
      have canonical := canonical_of_literal? denotes listable.kindOf
      exact ⟨fun t entries => entries.literal canonical, listable.tail⟩
  | name names _ =>
      have named := listable.kindOf
      rw [names] at named
      exact ⟨fun t entries => entries.name named, listable.tail⟩
  | parentheses _ read closing =>
      obtain ⟨inside, behind⟩ := keeps.expression _ _ _ listable.tail read
      exact ⟨inside, behind.expect closing⟩

theorem readArguments_keeps (keeps : InnerKeeps inner) (k : Nat) :
    Keeps (readArguments inner k) AllListable := by
  induction k with
  | zero =>
      intro tokens args rest listable done
      cases done
      exact ⟨fun t entries => entries, listable⟩
  | succ k ih =>
      intro tokens args rest listable done
      cases readArguments_cases done with
      | none => exact ⟨fun t entries => entries, listable⟩
      | more read _ others =>
          obtain ⟨first, behind⟩ := keeps.expression _ _ _ listable read
          obtain ⟨more, after⟩ := ih _ _ _ behind.tail others
          exact ⟨fun t entries => first _ (more t entries), after⟩
      | last read => exact keeps.expression _ _ _ listable read

theorem readCalls_keeps (keeps : InnerKeeps inner) (arguments k : Nat) {callee : Expr}
    (front : callee.Listable) : Keeps (readCalls inner arguments k callee) Expr.Listable := by
  induction k generalizing callee with
  | zero =>
      intro tokens e rest listable done
      cases done
      exact ⟨front, listable⟩
  | succ k ih =>
      intro tokens e rest listable done
      cases readCalls_cases done with
      | none => exact ⟨front, listable⟩
      | @more args _ _ _ _ _ read closing others =>
          obtain ⟨all, behind⟩ := readArguments_keeps keeps arguments _ _ _ listable.tail read
          have call : (Expr.call (lineOf tokens) callee args).Listable :=
            fun t entries => front _ (all t entries)
          exact ih call _ _ _ (behind.expect closing) others

theorem readCall_keeps (keeps : InnerKeeps inner) : Keeps (readCall bound inner) Expr.Listable := by
  intro tokens e rest listable done
  obtain ⟨⟨callee, behind⟩, read, onward⟩ := exists_of_bind_ok done
  obtain ⟨front, behind⟩ := readPrimary_keeps keeps _ _ _ listable read
  exact readCalls_keeps keeps bound bound front _ _ _ behind onward

theorem readUnary_keeps (keeps : InnerKeeps inner) :
    Keeps (readUnary bound inner) Expr.Listable := by
  intro tokens e rest listable done
  cases readUnary_cases done with
  | negate _ read =>
      obtain ⟨inside, behind⟩ := keeps.negation _ _ _ listable.tail read
      exact ⟨inside, behind⟩
  | call read => exact readCall_keeps keeps _ _ _ listable read

theorem readLeftChain_keeps {op? : TokenKind → Option ArithOp} {operand : TokenReader Expr}
    (keeps : Keeps operand Expr.Listable) (k : Nat) {left : Expr} (front : left.Listable) :
    Keeps (readLeftChain op? operand k left) Expr.Listable := by
  induction k generalizing left with
  | zero =>
      intro tokens e rest listable done
      cases done
      exact ⟨front, listable⟩
  | succ k ih =>
      intro tokens e rest listable done
      cases readLeftChain_cases done with
      | none => exact ⟨front, listable⟩
      | @more op right _ _ _ _ read others =>
          obtain ⟨back, behind⟩ := keeps _ _ _ listable.tail read
          have joined : (Expr.arith (lineOf tokens) op left right).Listable :=
            fun t entries => front _ (back t entries)
          exact ih joined _ _ _ behind others

theorem readProduct_keeps (keeps : InnerKeeps inner) :
    Keeps (readProduct bound inner) Expr.Listable := by
  intro tokens e rest listable done
  obtain ⟨⟨left, behind⟩, read, onward⟩ := exists_of_bind_ok done
  obtain ⟨front, behind⟩ := readUnary_keeps keeps _ _ _ listable read
  exact readLeftChain_keeps (readUnary_keeps keeps) bound front _ _ _ behind onward

theorem readSum_keeps (keeps : InnerKeeps inner) : Keeps (readSum bound inner) Expr.Listable := by
  intro tokens e rest listable done
  obtain ⟨⟨left, behind⟩, read, onward⟩ := exists_of_bind_ok done
  obtain ⟨front, behind⟩ := readProduct_keeps keeps _ _ _ listable read
  exact readLeftChain_keeps (readProduct_keeps keeps) bound front _ _ _ behind onward

theorem readComparison_keeps (keeps : InnerKeeps inner) :
    Keeps (readComparison bound inner) Expr.Listable := by
  intro tokens e rest listable done
  cases readComparison_cases done with
  | single read => exact readSum_keeps keeps _ _ _ listable read
  | compare readLeft _ readRight =>
      obtain ⟨front, behind⟩ := readSum_keeps keeps _ _ _ listable readLeft
      obtain ⟨back, after⟩ := readSum_keeps keeps _ _ _ behind.tail readRight
      exact ⟨fun t entries => front _ (back t entries), after⟩

theorem readNot_keeps (keeps : InnerKeeps inner) : Keeps (readNot bound inner) Expr.Listable := by
  intro tokens e rest listable done
  cases readNot_cases done with
  | complement _ read =>
      obtain ⟨inside, behind⟩ := keeps.complement _ _ _ listable.tail read
      exact ⟨inside, behind⟩
  | comparison read => exact readComparison_keeps keeps _ _ _ listable read

theorem readRightChain_keeps {word : Keyword} {join : Nat → Expr → Expr → Expr}
    {operand : TokenReader Expr} (keeps : Keeps operand Expr.Listable)
    (joined : ∀ {line l r}, l.Listable → r.Listable → (join line l r).Listable) (k : Nat) :
    Keeps (readRightChain word join operand k) Expr.Listable := by
  induction k with
  | zero => exact keeps
  | succ k ih =>
      intro tokens e rest listable done
      cases readRightChain_cases done with
      | single read => exact keeps _ _ _ listable read
      | more read _ others =>
          obtain ⟨front, behind⟩ := keeps _ _ _ listable read
          obtain ⟨back, after⟩ := ih _ _ _ behind.tail others
          exact ⟨joined front back, after⟩

theorem readAnd_keeps (keeps : InnerKeeps inner) : Keeps (readAnd bound inner) Expr.Listable := by
  have joined {line : Nat} {l r : Expr} (front : l.Listable) (back : r.Listable) :
      (Expr.both line l r).Listable :=
    fun t entries => front _ (back t entries)
  exact readRightChain_keeps (readNot_keeps keeps) joined bound

theorem readOr_keeps (keeps : InnerKeeps inner) : Keeps (readOr bound inner) Expr.Listable := by
  have joined {line : Nat} {l r : Expr} (front : l.Listable) (back : r.Listable) :
      (Expr.either line l r).Listable :=
    fun t entries => front _ (back t entries)
  exact readRightChain_keeps (readAnd_keeps keeps) joined bound

end Expressions

theorem innerAt_keeps (bound n : Nat) : InnerKeeps (innerAt bound n) := by
  induction n with
  | zero => exact ⟨nofun, nofun, nofun⟩
  | succ n ih => exact ⟨readOr_keeps ih, readNot_keeps ih, readUnary_keeps ih⟩

section Statements

variable {bound : Nat} {inLoop : Bool} {expression : TokenReader Expr}

theorem readSimple_keeps (keeps : Keeps expression Expr.Listable) :
    Keeps (readSimple expression inLoop) Stmt.Listable := by
  intro tokens s rest listable done
  cases readSimple_cases done with
  | pass | breakLoop | continueLoop => exact ⟨fun t entries => entries, listable.tail⟩
  | assignment names _ _ _ assigned =>
      have name := listable.kindOf
      rw [names] at name
      cases assigned with
      | assign _ read | augment _ read =>
          obtain ⟨value, behind⟩ := keeps _ _ _ listable.tail.tail read
          exact ⟨fun t entries => (value t entries).name name, behind⟩
  | evaluate read =>
      obtain ⟨value, behind⟩ := keeps _ _ _ listable read
      exact ⟨value, behind⟩

theorem readLine_keeps (keeps : Keeps expression Expr.Listable) :
    Keeps (readLine expression inLoop) Stmt.Listable := by
  intro tokens s rest listable done
  cases readLine_cases done with
  | newline read _ =>
      obtain ⟨simple, behind⟩ := readSimple_keeps keeps _ _ _ listable read
      exact ⟨simple, behind.tail⟩
  | exhausted read _ => exact readSimple_keeps keeps _ _ _ listable read

theorem readStatements_keeps {statement : TokenReader Stmt} (keeps : Keeps statement Stmt.Listable)
    (ends : TokenKind → Bool) (k : Nat) :
    Keeps (readStatements statement ends k) Stmt.Listable := by
  induction k with
  | zero =>
      intro tokens s rest listable done
      cases done
      exact ⟨fun t entries => entries, listable⟩
  | succ k ih =>
      intro tokens s rest listable done
      cases readStatements_cases done with
      | none => exact ⟨fun t entries => entries, listable⟩
      | more read others =>
          obtain ⟨front, behind⟩ := keeps _ _ _ listable read
          obtain ⟨back, after⟩ := ih _ _ _ behind others
          exact ⟨fun t entries => front _ (back t entries), after⟩

def BranchesListable (branches : Option (Nat × Stmt)) : Prop :=
  ∀ line s, branches = some (line, s) → s.Listable

theorem BranchesListable.of_some {line : Nat} {s : Stmt} (listable : s.Listable) :
    BranchesListable (some (line, s)) := by
  rintro _ _ ⟨⟩
  exact listable

theorem conditional_listable {line : Nat} {test : Expr} {body : Stmt}
    {branches : Option (Nat × Stmt)} (condition : test.Listable) (first : body.Listable)
    (others : BranchesListable branches) : (conditional line test body branches).Listable := by
  cases branches with
  | none => exact fun t entries => condition _ (first t entries)
  | some branch =>
      obtain ⟨elseLine, orelse⟩ := branch
      have second := others elseLine orelse rfl
      exact fun t entries => condition _ (first _ (second t entries))

theorem guarded_keeps (keeps : Keeps expression Expr.Listable) {suite : TokenReader Stmt}
    (suites : Keeps suite Stmt.Listable) {k : Nat}
    (others : Keeps (readBranches expression suite k) BranchesListable)
    {tokens rest : List Token} {test : Expr} {body : Stmt} {branches : Option (Nat × Stmt)}
    (listable : TokensListable tokens)
    (read : GuardedRead expression suite k tokens test body branches rest) (line : Nat) :
    (conditional line test body branches).Listable ∧ TokensListable rest := by
  obtain ⟨readTest, readBody, readBranches⟩ := read
  obtain ⟨condition, behind⟩ := keeps _ _ _ listable.tail readTest
  obtain ⟨first, behindBody⟩ := suites _ _ _ behind readBody
  obtain ⟨second, behindAll⟩ := others _ _ _ behindBody readBranches
  exact ⟨conditional_listable condition first second, behindAll⟩

theorem readBranches_keeps (keeps : Keeps expression Expr.Listable) {suite : TokenReader Stmt}
    (suites : Keeps suite Stmt.Listable) (k : Nat) :
    Keeps (readBranches expression suite k) BranchesListable := by
  induction k with
  | zero =>
      intro tokens branches rest listable done
      cases done
      exact ⟨nofun, listable⟩
  | succ k ih =>
      intro tokens branches rest listable done
      cases readBranches_cases done with
      | none => exact ⟨nofun, listable⟩
      | elifBranch _ guarded =>
          obtain ⟨branch, behind⟩ := guarded_keeps keeps suites ih listable guarded _
          exact ⟨.of_some branch, behind⟩
      | elseBranch _ readBody =>
          obtain ⟨branch, behind⟩ := suites _ _ _ listable.tail readBody
          exact ⟨.of_some branch, behind⟩

section Suites

variable {suite : SuiteReader} (keeps : Keeps expression Expr.Listable)
  (suites : ∀ inLoop, Keeps (suite inLoop) Stmt.Listable)

include keeps suites

theorem readStatement_keeps :
    Keeps (readStatement bound expression suite inLoop) Stmt.Listable := by
  intro tokens s rest listable done
  cases readStatement_cases done with
  | conditional _ guarded =>
      exact guarded_keeps keeps (suites inLoop) (readBranches_keeps keeps (suites inLoop) bound)
        listable guarded _
  | whileLoop _ readTest readBody =>
      obtain ⟨condition, behind⟩ := keeps _ _ _ listable.tail readTest
      obtain ⟨inside, behindBody⟩ := suites true _ _ _ behind readBody
      exact ⟨fun t entries => condition _ (inside t entries), behindBody⟩
  | forLoop _ names _ between readIterable readBody =>
      have name := listable.tail.kindOf
      rw [names] at name
      obtain ⟨items, behind⟩ := keeps _ _ _ (listable.tail.tail.expect between) readIterable
      obtain ⟨inside, behindBody⟩ := suites true _ _ _ behind readBody
      exact ⟨fun t entries => items _ ((inside t entries).name name), behindBody⟩
  | line read => exact readLine_keeps keeps _ _ _ listable read

theorem readBlock_keeps : Keeps (readBlock bound expression suite inLoop) Stmt.Listable := by
  intro tokens s rest listable done
  cases readBlock_cases done with
  | indented _ _ readBody =>
      obtain ⟨inside, behind⟩ := readStatements_keeps (readStatement_keeps keeps suites) _ _ _ _ _
        listable.tail.tail readBody
      refine ⟨inside, ?_⟩
      split
      · exact behind.tail
      · exact behind
  | line read => exact readLine_keeps keeps _ _ _ listable read

end Suites

end Statements

theorem suiteAt_keeps (bound n : Nat) (inLoop : Bool) :
    Keeps (suiteAt bound n inLoop) Stmt.Listable := by
  induction n generalizing inLoop with
  | zero =>
      intro tokens s rest _ done
      obtain ⟨m, _, impossible, _⟩ := suiteAt_cases done
      cases impossible
  | succ n ih =>
      intro tokens s rest listable done
      obtain ⟨m, behind, same, expected, onward⟩ := suiteAt_cases done
      cases same
      exact readBlock_keeps (innerAt_keeps bound n).expression ih _ _ _ (listable.expect expected)
        onward

theorem Tables.listable_of_read {source : String} {script : Script}
    (read : Script.ofSource? source = .ok script) : (Tables.ofStmt script.body).Listable := by
  unfold Script.ofSource? at read
  split at read
  · rename_i script' done
    cases read
    obtain ⟨⟨body, rest⟩, readBody, finish⟩ := exists_of_bind_ok done
    cases finish
    have statement : Keeps (readTopLevel (tokenize source).length) Stmt.Listable :=
      readStatement_keeps (innerAt_keeps _ maxNesting).expression (suiteAt_keeps _ maxNesting)
    obtain ⟨listable, _⟩ := readStatements_keeps statement _ _ _ _ _ (tokenize_listable source)
      readBody
    have entries := listable ⟨[.nothing], []⟩
      ⟨fun l member => by rw [List.mem_singleton.mp member]; exact nofun, nofun⟩
    exact ⟨fun l member => entries.literals l ((mem_poolOf _ l).mp member),
      fun id member => entries.names id ((mem_poolOf _ id).mp member)⟩
  · cases read

end LessonScript
