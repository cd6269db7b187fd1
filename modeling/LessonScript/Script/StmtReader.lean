import LessonScript.Script.ExprReader

/-!
Reading statements and whole scripts.

A suite is either one simple statement on the line of its header, or an indented block; it
opens one level of nesting.  `break` and `continue` are refused outside loops.  A refusal
becomes a syntax fault that names line, column and the line's text.
-/

namespace LessonScript

open TokenReader

namespace StmtReader

def augmentOp? : Symbol → Option ArithOp
  | .plusAssign => some .add
  | .minusAssign => some .subtract
  | .starAssign => some .multiply
  | .slashAssign => some .trueDivide
  | _ => none

def assignment? (tokens : List Token) : Option Symbol :=
  match kindOf tokens with
  | .symbol s => if s.isAssignment then some s else none
  | _ => none

theorem kindOf_of_assignment? {tokens : List Token} {symbol : Symbol}
    (found : assignment? tokens = some symbol) :
    kindOf tokens = .symbol symbol ∧ symbol.isAssignment = true := by
  unfold assignment? at found
  split at found
  · rename_i sign reads
    split at found
    · rename_i assigns
      cases found
      exact ⟨reads, assigns⟩
    · cases found
  · cases found

def readAssignment (expression : TokenReader Expr) (line : Nat) (id : String) (symbol : Symbol) :
    TokenReader Stmt := fun tokens => do
  let (e, rest) ← expression tokens.tail
  match augmentOp? symbol with
  | none => return (.assign line id e, rest)
  | some op => return (.augment line id op (lineOf tokens) e, rest)

def readEvaluation (expression : TokenReader Expr) : TokenReader Stmt := fun tokens => do
  let (e, rest) ← expression tokens
  if (assignment? rest).isSome then refuse .assignToExpression rest
  else return (.evaluate (lineOf tokens) e, rest)

def readSimple (expression : TokenReader Expr) (inLoop : Bool) : TokenReader Stmt := fun tokens =>
  match kindOf tokens with
  | .keyword .pass => .ok (.skip, tokens.tail)
  | .keyword .break =>
    if inLoop then .ok (.breakLoop (lineOf tokens), tokens.tail)
    else refuse .breakOutsideLoop tokens
  | .keyword .continue =>
    if inLoop then .ok (.continueLoop (lineOf tokens), tokens.tail)
    else refuse .continueOutsideLoop tokens
  | .name id =>
    match assignment? tokens.tail with
    | some symbol =>
      if isReserved id then refuse (.reserved id) tokens
      else readAssignment expression (lineOf tokens) id symbol tokens.tail
    | none => readEvaluation expression tokens
  | _ => readEvaluation expression tokens

/-- Goes past the end of a line; the end of the input ends a line too. -/
def readLineEnd (tokens : List Token) : Except Refusal (List Token) :=
  match kindOf tokens with
  | .newline => .ok tokens.tail
  | .endOfInput => .ok tokens
  | _ => unexpected "end of line" tokens

def readLine (expression : TokenReader Expr) (inLoop : Bool) : TokenReader Stmt := fun tokens => do
  let (stmt, rest) ← readSimple expression inLoop tokens
  let rest ← readLineEnd rest
  return (stmt, rest)

def readStatements (statement : TokenReader Stmt) (ends : TokenKind → Bool) :
    Nat → TokenReader Stmt
  | 0, tokens => .ok (.skip, tokens)
  | bound + 1, tokens =>
    if ends (kindOf tokens) then .ok (.skip, tokens)
    else do
      let (first, rest) ← statement tokens
      let (second, rest) ← readStatements statement ends bound rest
      return (.seq first second, rest)

abbrev SuiteReader := (inLoop : Bool) → TokenReader Stmt

def conditional (line : Nat) (test : Expr) (body : Stmt) : Option (Nat × Stmt) → Stmt
  | none => .ifThen line test body
  | some (elseLine, orelse) => .ifElse line test body elseLine orelse

def readBranches (expression : TokenReader Expr) (suite : TokenReader Stmt) :
    Nat → TokenReader (Option (Nat × Stmt))
  | 0, tokens => .ok (none, tokens)
  | bound + 1, tokens =>
    let line := lineOf tokens
    match kindOf tokens with
    | .keyword .elif => do
      let (test, rest) ← expression tokens.tail
      let (body, rest) ← suite rest
      let (branches, rest) ← readBranches expression suite bound rest
      return (some (line, conditional line test body branches), rest)
    | .keyword .else => do
      let (body, rest) ← suite tokens.tail
      return (some (line, body), rest)
    | _ => .ok (none, tokens)

def readIf (bound : Nat) (expression : TokenReader Expr) (suite : TokenReader Stmt) :
    TokenReader Stmt := fun tokens => do
  let (test, rest) ← expression tokens.tail
  let (body, rest) ← suite rest
  let (branches, rest) ← readBranches expression suite bound rest
  return (conditional (lineOf tokens) test body branches, rest)

def readWhile (expression : TokenReader Expr) (suite : SuiteReader) :
    TokenReader Stmt := fun tokens => do
  let (test, rest) ← expression tokens.tail
  let (body, rest) ← suite true rest
  return (.whileLoop (lineOf tokens) test body, rest)

def readFor (expression : TokenReader Expr) (suite : SuiteReader) :
    TokenReader Stmt := fun tokens =>
  let header := tokens.tail
  match kindOf header with
  | .name id =>
    if isReserved id then refuse (.reserved id) header
    else do
      let rest ← expect (.keyword .in) header.tail
      let (iterable, rest) ← expression rest
      let (body, rest) ← suite true rest
      return (.forLoop (lineOf tokens) id iterable body, rest)
  | _ => unexpected "a loop variable name" header

def readStatement (bound : Nat) (expression : TokenReader Expr) (suite : SuiteReader)
    (inLoop : Bool) : TokenReader Stmt := fun tokens =>
  match kindOf tokens with
  | .keyword .if => readIf bound expression (suite inLoop) tokens
  | .keyword .while => readWhile expression suite tokens
  | .keyword .for => readFor expression suite tokens
  | _ => readLine expression inLoop tokens

def endsBlock (kind : TokenKind) : Bool :=
  kind = .dedent || kind = .endOfInput

def readBlock (bound : Nat) (expression : TokenReader Expr) (suite : SuiteReader)
    (inLoop : Bool) : TokenReader Stmt := fun tokens =>
  if kindOf tokens = .newline then
    let block := tokens.tail
    if kindOf block = .indent then do
      let statement := readStatement bound expression suite inLoop
      let (body, rest) ← readStatements statement endsBlock bound block.tail
      return (body, if kindOf rest = .dedent then rest.tail else rest)
    else refuse .missingBlock block
  else readLine expression inLoop tokens

def suiteAt (bound : Nat) : Nat → SuiteReader
  | 0, _, tokens => do
    let rest ← expect (.symbol .colon) tokens
    refuse .tooDeep rest
  | levels + 1, inLoop, tokens => do
    let rest ← expect (.symbol .colon) tokens
    readBlock bound (ExprReader.innerAt bound levels).expression (suiteAt bound levels) inLoop rest

def readTopLevel (bound : Nat) : TokenReader Stmt :=
  readStatement bound (ExprReader.innerAt bound maxNesting).expression (suiteAt bound maxNesting)
    false

end StmtReader

namespace Script

def lastLineOf (tokens : List Token) : Nat :=
  match tokens.dropLast.getLast? with
  | some token => token.position.line
  | none => 1

def ofTokens? (tokens : List Token) : Except Refusal Script := do
  let bound := tokens.length
  let (body, _) ← StmtReader.readStatements (StmtReader.readTopLevel bound)
    (· = .endOfInput) bound tokens
  return ⟨body, lastLineOf tokens⟩

/-- The fault that a refusal is, with the line of the text around the place that it points at. -/
def faultOf (source : String) (refusal : Refusal) : SyntaxFault where
  message := refusal.complaint.message
  line := refusal.position.line
  column := refusal.position.column
  source := String.ofList (Text.lineAround source.toList refusal.position.offset)

def ofSource? (source : String) : Except Error Script :=
  match ofTokens? (tokenize source) with
  | .ok script => .ok script
  | .error refusal => .error (.ofFault (.malformed (faultOf source refusal)))

end Script

end LessonScript
