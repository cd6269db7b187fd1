import LessonScript.Script.StmtReader

/-!
The grammar of scripts.

`Spells` derives lists of tokens from expressions and `Forms` from statements, one
constructor for each way to write a part.  Chains of operators are joined from the left, and
only parentheses give a part a stronger hold.  A derivation counts the levels of nesting that
may still be opened, knows whether it stands in a loop, and uses no reserved word as a name.
The lines in the trees are free: the grammar does not know where its tokens stand.

The grammar knows nothing of how a script is read.
-/

namespace LessonScript

def ArithOp.sign : ArithOp → Symbol
  | .add => .plus
  | .subtract => .minus
  | .multiply => .star
  | .trueDivide => .slash
  | .floorDivide => .doubleSlash
  | .modulo => .percent

/-- The operator joins factors of a product; the others join terms of a sum. -/
def ArithOp.joinsFactors : ArithOp → Bool
  | .add | .subtract => false
  | .multiply | .trueDivide | .floorDivide | .modulo => true

def CompareOp.sign : CompareOp → Symbol
  | .eq => .eq
  | .ne => .ne
  | .lt => .lt
  | .gt => .gt
  | .le => .le
  | .ge => .ge

/-- The sign of the assignment that applies the operator first, if there is one. -/
def ArithOp.assignSign? : ArithOp → Option Symbol
  | .add => some .plusAssign
  | .subtract => some .minusAssign
  | .multiply => some .starAssign
  | .trueDivide => some .slashAssign
  | .floorDivide | .modulo => none

/-- The literal that a token denotes. -/
def TokenKind.literal? : TokenKind → Option Literal
  | .int n => some (.int n)
  | .float x => some (.float x)
  | .str s => some (.str s)
  | .keyword .true => some (.bool true)
  | .keyword .false => some (.bool false)
  | .keyword .nothing => some .nothing
  | _ => none

/-- How strongly the parts of an expression hold together, the weakest first. -/
inductive Strength where
  | expression
  | disjunction
  | conjunction
  | inversion
  | comparison
  | sum
  | product
  | negation
  | call
  | primary

/-- What a list of tokens can spell: an expression of some strength, or the arguments of a
call. -/
inductive Phrase where
  | operand (strength : Strength) (e : Expr)
  | arguments (es : List Expr)

/-- The tokens spell the phrase and open at most so many levels at once.  Expressions, operands
of `not` and operands of a unary minus open a level. -/
inductive Spells : Nat → Phrase → List Token → Prop
  | literal {n line : Nat} {l : Literal} {token : Token} (denotes : token.kind.literal? = some l) :
      Spells n (.operand .primary (.literal line l)) [token]
  | name {n line : Nat} {id : String} {token : Token} (reads : token.kind = .name id)
      (free : isReserved id = false) :
      Spells n (.operand .primary (.name line id)) [token]
  | parentheses {n : Nat} {e : Expr} {left right : Token} {ts : List Token}
      (opening : left.kind = .symbol .leftParen) (inside : Spells n (.operand .expression e) ts)
      (closing : right.kind = .symbol .rightParen) :
      Spells n (.operand .primary e) (left :: (ts ++ [right]))
  | call {n : Nat} {e : Expr} {ts : List Token} (primary : Spells n (.operand .primary e) ts) :
      Spells n (.operand .call e) ts
  | callMore {n line : Nat} {e : Expr} {args : List Expr} {left right : Token} {ts us : List Token}
      (callee : Spells n (.operand .call e) ts) (opening : left.kind = .symbol .leftParen)
      (arguments : Spells n (.arguments args) us) (closing : right.kind = .symbol .rightParen) :
      Spells n (.operand .call (.call line e args)) (ts ++ left :: (us ++ [right]))
  | noArguments {n : Nat} : Spells n (.arguments []) []
  | lastArgument {n : Nat} {e : Expr} {ts : List Token}
      (argument : Spells n (.operand .expression e) ts) : Spells n (.arguments [e]) ts
  | moreArguments {n : Nat} {e : Expr} {es : List Expr} {comma : Token} {ts us : List Token}
      (argument : Spells n (.operand .expression e) ts) (between : comma.kind = .symbol .comma)
      (others : Spells n (.arguments es) us) : Spells n (.arguments (e :: es)) (ts ++ comma :: us)
  | negation {n : Nat} {e : Expr} {ts : List Token} (call : Spells n (.operand .call e) ts) :
      Spells n (.operand .negation e) ts
  | minus {n line : Nat} {e : Expr} {sign : Token} {ts : List Token}
      (reads : sign.kind = .symbol .minus) (operand : Spells n (.operand .negation e) ts) :
      Spells (n + 1) (.operand .negation (.negate line e)) (sign :: ts)
  | product {n : Nat} {e : Expr} {ts : List Token} (factor : Spells n (.operand .negation e) ts) :
      Spells n (.operand .product e) ts
  | productMore {n line : Nat} {op : ArithOp} {l r : Expr} {sign : Token} {ts us : List Token}
      (left : Spells n (.operand .product l) ts) (joins : op.joinsFactors = true)
      (reads : sign.kind = .symbol op.sign) (right : Spells n (.operand .negation r) us) :
      Spells n (.operand .product (.arith line op l r)) (ts ++ sign :: us)
  | sum {n : Nat} {e : Expr} {ts : List Token} (term : Spells n (.operand .product e) ts) :
      Spells n (.operand .sum e) ts
  | sumMore {n line : Nat} {op : ArithOp} {l r : Expr} {sign : Token} {ts us : List Token}
      (left : Spells n (.operand .sum l) ts) (joins : op.joinsFactors = false)
      (reads : sign.kind = .symbol op.sign) (right : Spells n (.operand .product r) us) :
      Spells n (.operand .sum (.arith line op l r)) (ts ++ sign :: us)
  | comparison {n : Nat} {e : Expr} {ts : List Token} (sum : Spells n (.operand .sum e) ts) :
      Spells n (.operand .comparison e) ts
  | compare {n line : Nat} {op : CompareOp} {l r : Expr} {sign : Token} {ts us : List Token}
      (left : Spells n (.operand .sum l) ts) (reads : sign.kind = .symbol op.sign)
      (right : Spells n (.operand .sum r) us) :
      Spells n (.operand .comparison (.compare line op l r)) (ts ++ sign :: us)
  | inversion {n : Nat} {e : Expr} {ts : List Token}
      (comparison : Spells n (.operand .comparison e) ts) : Spells n (.operand .inversion e) ts
  | not {n line : Nat} {e : Expr} {word : Token} {ts : List Token}
      (reads : word.kind = .keyword .not) (operand : Spells n (.operand .inversion e) ts) :
      Spells (n + 1) (.operand .inversion (.complement line e)) (word :: ts)
  | conjunction {n : Nat} {e : Expr} {ts : List Token}
      (operand : Spells n (.operand .inversion e) ts) : Spells n (.operand .conjunction e) ts
  | conjunctionMore {n line : Nat} {l r : Expr} {word : Token} {ts us : List Token}
      (left : Spells n (.operand .conjunction l) ts) (reads : word.kind = .keyword .and)
      (right : Spells n (.operand .inversion r) us) :
      Spells n (.operand .conjunction (.both line l r)) (ts ++ word :: us)
  | disjunction {n : Nat} {e : Expr} {ts : List Token}
      (operand : Spells n (.operand .conjunction e) ts) : Spells n (.operand .disjunction e) ts
  | disjunctionMore {n line : Nat} {l r : Expr} {word : Token} {ts us : List Token}
      (left : Spells n (.operand .disjunction l) ts) (reads : word.kind = .keyword .or)
      (right : Spells n (.operand .conjunction r) us) :
      Spells n (.operand .disjunction (.either line l r)) (ts ++ word :: us)
  | expression {n : Nat} {e : Expr} {ts : List Token}
      (inside : Spells n (.operand .disjunction e) ts) : Spells (n + 1) (.operand .expression e) ts

section

variable {n : Nat} {e : Expr} {ts : List Token}

theorem Spells.sum_of_primary (primary : Spells n (.operand .primary e) ts) :
    Spells n (.operand .sum e) ts :=
  .sum (.product (.negation (.call primary)))

theorem Spells.inversion_of_primary (primary : Spells n (.operand .primary e) ts) :
    Spells n (.operand .inversion e) ts :=
  .inversion (.comparison primary.sum_of_primary)

theorem Spells.disjunction_of_inversion (inversion : Spells n (.operand .inversion e) ts) :
    Spells n (.operand .disjunction e) ts :=
  .disjunction (.conjunction inversion)

end

inductive Part where
  | simple (s : Stmt)
  | statement (s : Stmt)
  | statements (s : Stmt)
  | suite (s : Stmt)
  | branches (rest : Option (Nat × Stmt))

/-- The tokens form the part, inside a loop or not, and open at most so many levels at once.
Suites open a level. -/
inductive Forms : Nat → Bool → Part → List Token → Prop
  | pass {n : Nat} {inLoop : Bool} {word : Token} (reads : word.kind = .keyword .pass) :
      Forms n inLoop (.simple .skip) [word]
  | breakLoop {n line : Nat} {word : Token} (reads : word.kind = .keyword .break) :
      Forms n true (.simple (.breakLoop line)) [word]
  | continueLoop {n line : Nat} {word : Token} (reads : word.kind = .keyword .continue) :
      Forms n true (.simple (.continueLoop line)) [word]
  | evaluate {n line : Nat} {inLoop : Bool} {e : Expr} {ts : List Token}
      (expression : Spells n (.operand .expression e) ts) :
      Forms n inLoop (.simple (.evaluate line e)) ts
  | assign {n line : Nat} {inLoop : Bool} {id : String} {e : Expr} {name sign : Token}
      {ts : List Token} (names : name.kind = .name id) (free : isReserved id = false)
      (reads : sign.kind = .symbol .assign) (expression : Spells n (.operand .expression e) ts) :
      Forms n inLoop (.simple (.assign line id e)) (name :: sign :: ts)
  | augment {n line opLine : Nat} {inLoop : Bool} {id : String} {op : ArithOp} {symbol : Symbol}
      {e : Expr} {name sign : Token} {ts : List Token} (names : name.kind = .name id)
      (free : isReserved id = false) (applies : op.assignSign? = some symbol)
      (reads : sign.kind = .symbol symbol) (expression : Spells n (.operand .expression e) ts) :
      Forms n inLoop (.simple (.augment line id op opLine e)) (name :: sign :: ts)
  | line {n : Nat} {inLoop : Bool} {s : Stmt} {stop : Token} {ts : List Token}
      (simple : Forms n inLoop (.simple s) ts) (ends : stop.kind = .newline) :
      Forms n inLoop (.statement s) (ts ++ [stop])
  | conditional {n line : Nat} {inLoop : Bool} {test : Expr} {body : Stmt}
      {rest : Option (Nat × Stmt)} {word : Token} {ts us vs : List Token}
      (reads : word.kind = .keyword .if) (expression : Spells n (.operand .expression test) ts)
      (suite : Forms n inLoop (.suite body) us) (branches : Forms n inLoop (.branches rest) vs) :
      Forms n inLoop (.statement (StmtReader.conditional line test body rest))
        (word :: (ts ++ (us ++ vs)))
  | noBranch {n : Nat} {inLoop : Bool} : Forms n inLoop (.branches none) []
  | elifBranch {n line elseLine : Nat} {inLoop : Bool} {test : Expr} {body : Stmt}
      {rest : Option (Nat × Stmt)} {word : Token} {ts us vs : List Token}
      (reads : word.kind = .keyword .elif) (expression : Spells n (.operand .expression test) ts)
      (suite : Forms n inLoop (.suite body) us) (branches : Forms n inLoop (.branches rest) vs) :
      Forms n inLoop (.branches (some (elseLine, StmtReader.conditional line test body rest)))
        (word :: (ts ++ (us ++ vs)))
  | elseBranch {n elseLine : Nat} {inLoop : Bool} {body : Stmt} {word : Token} {us : List Token}
      (reads : word.kind = .keyword .else) (suite : Forms n inLoop (.suite body) us) :
      Forms n inLoop (.branches (some (elseLine, body))) (word :: us)
  | whileLoop {n line : Nat} {inLoop : Bool} {test : Expr} {body : Stmt} {word : Token}
      {ts us : List Token} (reads : word.kind = .keyword .while)
      (expression : Spells n (.operand .expression test) ts)
      (suite : Forms n true (.suite body) us) :
      Forms n inLoop (.statement (.whileLoop line test body)) (word :: (ts ++ us))
  | forLoop {n line : Nat} {inLoop : Bool} {id : String} {iterable : Expr} {body : Stmt}
      {word name «in» : Token} {ts us : List Token} (reads : word.kind = .keyword .for)
      (names : name.kind = .name id) (free : isReserved id = false)
      (between : «in».kind = .keyword .in)
      (expression : Spells n (.operand .expression iterable) ts)
      (suite : Forms n true (.suite body) us) :
      Forms n inLoop (.statement (.forLoop line id iterable body))
        (word :: name :: «in» :: (ts ++ us))
  | inline {n : Nat} {inLoop : Bool} {s : Stmt} {colon stop : Token} {ts : List Token}
      (reads : colon.kind = .symbol .colon) (simple : Forms n inLoop (.simple s) ts)
      (ends : stop.kind = .newline) : Forms (n + 1) inLoop (.suite s) (colon :: (ts ++ [stop]))
  | block {n : Nat} {inLoop : Bool} {s : Stmt} {colon newline indent dedent : Token}
      {ts : List Token} (reads : colon.kind = .symbol .colon) (ends : newline.kind = .newline)
      (opens : indent.kind = .indent) (statements : Forms n inLoop (.statements s) ts)
      (closes : dedent.kind = .dedent) :
      Forms (n + 1) inLoop (.suite s) (colon :: newline :: indent :: (ts ++ [dedent]))
  | nothing {n : Nat} {inLoop : Bool} : Forms n inLoop (.statements .skip) []
  | more {n : Nat} {inLoop : Bool} {first second : Stmt} {ts us : List Token}
      (statement : Forms n inLoop (.statement first) ts)
      (others : Forms n inLoop (.statements second) us) :
      Forms n inLoop (.statements (.seq first second)) (ts ++ us)

/-- The tokens of a whole script: its statements and the end of the input. -/
def FormsScript (s : Stmt) (tokens : List Token) : Prop :=
  ∃ ts last, tokens = ts ++ [last] ∧ last.kind = .endOfInput ∧
    Forms maxNesting false (.statements s) ts

/-- A place in the order of the strengths, the strongest first. -/
def Strength.looseness : Strength → Nat
  | .primary => 0
  | .call => 1
  | .negation => 2
  | .product => 3
  | .sum => 4
  | .comparison => 5
  | .inversion => 6
  | .conjunction => 7
  | .disjunction => 8
  | .expression => 9

/-- The token can be the first of an expression as loose as that. -/
def TokenKind.begins (looseness : Nat) : TokenKind → Bool
  | .int _ | .float _ | .str _ | .name _ | .symbol .leftParen => true
  | .keyword .true | .keyword .false | .keyword .nothing => true
  | .keyword .not => Strength.inversion.looseness ≤ looseness
  | .symbol .minus => Strength.negation.looseness ≤ looseness
  | _ => false

def TokenKind.inExpression : TokenKind → Bool
  | .int _ | .float _ | .str _ | .name _ => true
  | .keyword .true | .keyword .false | .keyword .nothing => true
  | .keyword .and | .keyword .or | .keyword .not => true
  | .symbol .colon => false
  | .symbol s => !s.isAssignment
  | _ => false

theorem TokenKind.begins_mono {kind : TokenKind} {a b : Nat} (le : a ≤ b)
    (begins : kind.begins a = true) : kind.begins b = true := by
  have loosen {c : Nat} (low : decide (c ≤ a) = true) : decide (c ≤ b) = true :=
    decide_eq_true (Nat.le_trans (of_decide_eq_true low) le)
  cases kind with
  | symbol s =>
      cases s with
      | minus => exact loosen begins
      | _ => exact begins
  | keyword word =>
      cases word with
      | not => exact loosen begins
      | _ => exact begins
  | _ => exact begins

theorem TokenKind.of_literal? {kind : TokenKind} {l : Literal} (denotes : kind.literal? = some l) :
    (∃ n, kind = .int n ∧ l = .int n) ∨ (∃ x, kind = .float x ∧ l = .float x) ∨
      (∃ s, kind = .str s ∧ l = .str s) ∨ (kind = .keyword .true ∧ l = .bool true) ∨
      (kind = .keyword .false ∧ l = .bool false) ∨ (kind = .keyword .nothing ∧ l = .nothing) := by
  cases kind with
  | int n =>
      cases denotes
      exact .inl ⟨n, rfl, rfl⟩
  | float x =>
      cases denotes
      exact .inr (.inl ⟨x, rfl, rfl⟩)
  | str s =>
      cases denotes
      exact .inr (.inr (.inl ⟨s, rfl, rfl⟩))
  | keyword word => cases word <;> cases denotes <;> simp
  | _ => cases denotes

theorem TokenKind.begins_of_literal {kind : TokenKind} {l : Literal}
    (denotes : kind.literal? = some l) (looseness : Nat) :
    kind.begins looseness = true ∧ kind.inExpression = true := by
  rcases of_literal? denotes with
    ⟨n, rfl, _⟩ | ⟨x, rfl, _⟩ | ⟨s, rfl, _⟩ | ⟨rfl, _⟩ | ⟨rfl, _⟩ | ⟨rfl, _⟩
  all_goals exact ⟨rfl, rfl⟩

theorem ArithOp.sign_inExpression (op : ArithOp) :
    (TokenKind.symbol op.sign).inExpression = true := by
  cases op <;> rfl

theorem CompareOp.sign_inExpression (op : CompareOp) :
    (TokenKind.symbol op.sign).inExpression = true := by
  cases op <;> rfl

def Phrase.Begins : Phrase → List Token → Prop
  | .operand strength _, ts =>
    ∃ first rest, ts = first :: rest ∧ first.kind.begins strength.looseness = true
  | .arguments _, _ => True

theorem Phrase.Begins.loosen {s t : Strength} {e e' : Expr} {ts : List Token}
    (begins : (Phrase.operand s e).Begins ts) (le : s.looseness ≤ t.looseness) :
    (Phrase.operand t e').Begins ts := by
  rcases begins with ⟨first, rest, same, begins⟩
  exact ⟨first, rest, same, TokenKind.begins_mono le begins⟩

theorem Phrase.Begins.append {s : Strength} {e : Expr} {ts : List Token}
    (begins : (Phrase.operand s e).Begins ts) (us : List Token) :
    (Phrase.operand s e).Begins (ts ++ us) := by
  rcases begins with ⟨first, rest, rfl, begins⟩
  exact ⟨first, rest ++ us, rfl, begins⟩

theorem Spells.begins {n : Nat} {phrase : Phrase} {ts : List Token} (spells : Spells n phrase ts) :
    phrase.Begins ts := by
  induction spells with
  | @literal _ _ _ token denotes =>
      exact ⟨token, [], rfl, (TokenKind.begins_of_literal denotes _).1⟩
  | @name _ _ _ token reads _ =>
      refine ⟨token, [], rfl, ?_⟩
      rw [reads]
      rfl
  | @parentheses _ _ left right ts opening _ _ =>
      refine ⟨left, ts ++ [right], rfl, ?_⟩
      rw [opening]
      rfl
  | minus reads | not reads =>
      refine ⟨_, _, rfl, ?_⟩
      rw [reads]
      rfl
  | noArguments | lastArgument | moreArguments => exact trivial
  | call _ ih | negation _ ih | product _ ih | sum _ ih | comparison _ ih | inversion _ ih
  | conjunction _ ih | disjunction _ ih | expression _ ih => exact ih.loosen (by decide)
  | callMore _ _ _ _ ih | productMore _ _ _ _ ih | sumMore _ _ _ _ ih | compare _ _ _ ih
  | conjunctionMore _ _ _ ih | disjunctionMore _ _ _ ih =>
      exact (ih.append _).loosen (by decide)

theorem Spells.ne_nil {n : Nat} {strength : Strength} {e : Expr} {ts : List Token}
    (spells : Spells n (.operand strength e) ts) : ts ≠ [] := by
  rcases spells.begins with ⟨first, rest, rfl, _⟩
  exact List.cons_ne_nil _ _

theorem Spells.inExpression {n : Nat} {phrase : Phrase} {ts : List Token}
    (spells : Spells n phrase ts) : ∀ t ∈ ts, t.kind.inExpression = true := by
  have word {kind : TokenKind} {t : Token} (reads : t.kind = kind)
      (inside : kind.inExpression = true) : t.kind.inExpression = true := by
    rw [reads]
    exact inside
  induction spells with
  | literal denotes =>
      have inside := (TokenKind.begins_of_literal denotes 0).2
      simpa using inside
  | name reads => simpa using word reads rfl
  | noArguments => simp
  | parentheses opening _ closing ih =>
      simp only [List.forall_mem_cons, List.forall_mem_append]
      exact ⟨word opening rfl, ih, word closing rfl, nofun⟩
  | callMore _ opening _ closing ihCallee ihArguments =>
      simp only [List.forall_mem_cons, List.forall_mem_append]
      exact ⟨ihCallee, word opening rfl, ihArguments, word closing rfl, nofun⟩
  | minus reads _ ih | not reads _ ih =>
      simp only [List.forall_mem_cons]
      exact ⟨word reads rfl, ih⟩
  | moreArguments _ reads _ ih ih' | conjunctionMore _ reads _ ih ih'
  | disjunctionMore _ reads _ ih ih' =>
      simp only [List.forall_mem_cons, List.forall_mem_append]
      exact ⟨ih, word reads rfl, ih'⟩
  | productMore _ _ reads _ ih ih' | sumMore _ _ reads _ ih ih' =>
      simp only [List.forall_mem_cons, List.forall_mem_append]
      exact ⟨ih, word reads (ArithOp.sign_inExpression _), ih'⟩
  | compare _ reads _ ih ih' =>
      simp only [List.forall_mem_cons, List.forall_mem_append]
      exact ⟨ih, word reads (CompareOp.sign_inExpression _), ih'⟩
  | call _ ih | lastArgument _ ih | negation _ ih | product _ ih | sum _ ih | comparison _ ih
  | inversion _ ih | conjunction _ ih | disjunction _ ih | expression _ ih => exact ih

end LessonScript
