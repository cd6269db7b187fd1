import LessonScript.Script.TokenReader
import LessonScript.Script.Tree

/-!
Reading expressions.

The binding strengths, weakest first, are `or`, `and`, `not`, comparison, sum, product,
unary minus and call.  Comparisons do not chain.  Every expression, every operand of `not`
and every operand of a unary minus opens one level of nesting; `Inner` is what can be read
one level further in, and `innerAt` builds it for a number of levels that may still be
opened.

`bound` is at least the number of tokens.  It limits the length of chains, so that reading
is by structural recursion, and it is never reached.
-/

namespace LessonScript

open TokenReader

structure Inner where
  /-- A whole expression. -/
  expression : TokenReader Expr
  /-- The operand of `not`. -/
  complement : TokenReader Expr
  /-- The operand of a unary minus. -/
  negation : TokenReader Expr

namespace ExprReader

def readPrimary (inner : Inner) : TokenReader Expr := fun tokens =>
  let line := lineOf tokens
  let literal (l : Literal) : Except Refusal (Expr × List Token) :=
    .ok (.literal line l, tokens.tail)
  match kindOf tokens with
  | .int n => literal (.int n)
  | .float x => literal (.float x)
  | .str s => literal (.str s)
  | .keyword .true => literal (.bool true)
  | .keyword .false => literal (.bool false)
  | .keyword .nothing => literal .nothing
  | .name id =>
    if isReserved id then refuse (.reserved id) tokens else .ok (.name line id, tokens.tail)
  | .symbol .leftParen => do
    let (e, rest) ← inner.expression tokens.tail
    let rest ← expect (.symbol .rightParen) rest
    return (e, rest)
  | _ => unexpected "an expression" tokens

/-- Reads the arguments of a call up to the closing parenthesis; a comma may end them. -/
def readArguments (inner : Inner) : Nat → TokenReader (List Expr)
  | 0, tokens => .ok ([], tokens)
  | bound + 1, tokens =>
    if kindOf tokens = .symbol .rightParen then .ok ([], tokens)
    else do
      let (arg, rest) ← inner.expression tokens
      if kindOf rest = .symbol .comma then
        let (args, rest) ← readArguments inner bound rest.tail
        return (arg :: args, rest)
      else return ([arg], rest)

def readCalls (inner : Inner) (arguments : Nat) : Nat → Expr → TokenReader Expr
  | 0, callee, tokens => .ok (callee, tokens)
  | bound + 1, callee, tokens =>
    if kindOf tokens = .symbol .leftParen then do
      let (args, rest) ← readArguments inner arguments tokens.tail
      let rest ← expect (.symbol .rightParen) rest
      readCalls inner arguments bound (.call (lineOf tokens) callee args) rest
    else .ok (callee, tokens)

def readCall (bound : Nat) (inner : Inner) : TokenReader Expr := fun tokens => do
  let (callee, rest) ← readPrimary inner tokens
  readCalls inner bound bound callee rest

def readUnary (bound : Nat) (inner : Inner) : TokenReader Expr := fun tokens =>
  if kindOf tokens = .symbol .minus then do
    let (operand, rest) ← inner.negation tokens.tail
    return (.negate (lineOf tokens) operand, rest)
  else readCall bound inner tokens

/-- Reads the rest of a chain of operators of one strength, joined from the left. -/
def readLeftChain (op? : TokenKind → Option ArithOp) (operand : TokenReader Expr) :
    Nat → Expr → TokenReader Expr
  | 0, left, tokens => .ok (left, tokens)
  | bound + 1, left, tokens =>
    match op? (kindOf tokens) with
    | some op => do
      let (right, rest) ← operand tokens.tail
      readLeftChain op? operand bound (.arith (lineOf tokens) op left right) rest
    | none => .ok (left, tokens)

def productOp? : TokenKind → Option ArithOp
  | .symbol .star => some .multiply
  | .symbol .slash => some .trueDivide
  | .symbol .doubleSlash => some .floorDivide
  | .symbol .percent => some .modulo
  | _ => none

def sumOp? : TokenKind → Option ArithOp
  | .symbol .plus => some .add
  | .symbol .minus => some .subtract
  | _ => none

def compareOp? : TokenKind → Option CompareOp
  | .symbol .eq => some .eq
  | .symbol .ne => some .ne
  | .symbol .lt => some .lt
  | .symbol .gt => some .gt
  | .symbol .le => some .le
  | .symbol .ge => some .ge
  | _ => none

def readProduct (bound : Nat) (inner : Inner) : TokenReader Expr := fun tokens => do
  let (left, rest) ← readUnary bound inner tokens
  readLeftChain productOp? (readUnary bound inner) bound left rest

def readSum (bound : Nat) (inner : Inner) : TokenReader Expr := fun tokens => do
  let (left, rest) ← readProduct bound inner tokens
  readLeftChain sumOp? (readProduct bound inner) bound left rest

def readComparison (bound : Nat) (inner : Inner) : TokenReader Expr := fun tokens => do
  let (left, rest) ← readSum bound inner tokens
  match compareOp? (kindOf rest) with
  | none => return (left, rest)
  | some op =>
    let (right, after) ← readSum bound inner rest.tail
    if (compareOp? (kindOf after)).isSome then refuse .chainedComparison after
    else return (.compare (lineOf rest) op left right, after)

def readNot (bound : Nat) (inner : Inner) : TokenReader Expr := fun tokens =>
  if kindOf tokens = .keyword .not then do
    let (operand, rest) ← inner.complement tokens.tail
    return (.complement (lineOf tokens) operand, rest)
  else readComparison bound inner tokens

def readRightChain (word : Keyword) (join : Nat → Expr → Expr → Expr)
    (operand : TokenReader Expr) : Nat → TokenReader Expr
  | 0, tokens => operand tokens
  | bound + 1, tokens => do
    let (left, rest) ← operand tokens
    if kindOf rest = .keyword word then
      let (right, after) ← readRightChain word join operand bound rest.tail
      return (join (lineOf rest) left right, after)
    else return (left, rest)

def readAnd (bound : Nat) (inner : Inner) : TokenReader Expr :=
  readRightChain .and .both (readNot bound inner) bound

def readOr (bound : Nat) (inner : Inner) : TokenReader Expr :=
  readRightChain .or .either (readAnd bound inner) bound

def innerAt (bound : Nat) : Nat → Inner
  | 0 =>
    { expression := refuse .tooDeep
      complement := refuse .tooDeep
      negation := refuse .tooDeep }
  | levels + 1 =>
    let inner := innerAt bound levels
    { expression := readOr bound inner
      complement := readNot bound inner
      negation := readUnary bound inner }

end ExprReader

end LessonScript
