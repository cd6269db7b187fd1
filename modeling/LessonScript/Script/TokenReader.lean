import LessonScript.Fault
import LessonScript.Token.Lexer

/-!
Reading from a list of tokens, and what is said when a token does not fit.

A reader takes the tokens still to be read and gives a result with the tokens left, or
refuses at the place of one token.  A `Complaint` is the cause of the refusal; its wording
is `Complaint.message`.
-/

namespace LessonScript

inductive Complaint where
  | tooDeep
  | breakOutsideLoop
  | continueOutsideLoop
  | assignToExpression
  | chainedComparison
  | missingBlock
  | unexpectedIndent
  | reserved (word : String)
  | lexical (fault : LexicalFault)
  | expected (wanted : String) (found : TokenKind)
  deriving DecidableEq

namespace Complaint

def message : Complaint → String
  | tooDeep => "too deeply nested"
  | breakOutsideLoop => "'break' outside loop"
  | continueOutsideLoop => "'continue' not properly in loop"
  | assignToExpression => "cannot assign to expression"
  | chainedComparison => "chained comparisons are not supported; use 'and'"
  | missingBlock => "expected an indented block"
  | unexpectedIndent => "unexpected indent"
  | reserved word => "'" ++ word ++ "' is not supported in BitQuest scripts"
  | lexical fault => fault.message
  | expected wanted found => "expected " ++ wanted ++ ", found " ++ found.title

end Complaint

structure Refusal where
  complaint : Complaint
  position : Position
  deriving DecidableEq

abbrev TokenReader (α : Type) := List Token → Except Refusal (α × List Token)

def reservedWords : List String :=
  ["assert", "async", "await", "class", "def", "del", "except", "finally", "from", "global",
    "import", "is", "lambda", "nonlocal", "raise", "return", "try", "with", "yield"]

def isReserved (word : String) : Bool :=
  reservedWords.contains word

/-- The deepest nesting of suites, expressions and prefix operators. -/
def maxNesting : Nat :=
  100

namespace TokenReader

def kindOf : List Token → TokenKind
  | token :: _ => token.kind
  | [] => .endOfInput

def positionOf : List Token → Position
  | token :: _ => token.position
  | [] => .start

def lineOf (tokens : List Token) : Nat :=
  (positionOf tokens).line

def refuse {α : Type} (complaint : Complaint) (tokens : List Token) : Except Refusal α :=
  .error ⟨complaint, positionOf tokens⟩

/-- Refuses the next token where something else was wanted.  A token that is a complaint
speaks for itself. -/
def unexpected {α : Type} (wanted : String) (tokens : List Token) : Except Refusal α :=
  match kindOf tokens with
  | .fault fault => refuse (.lexical fault) tokens
  | .name word =>
    if isReserved word then refuse (.reserved word) tokens
    else refuse (.expected wanted (.name word)) tokens
  | .indent => refuse .unexpectedIndent tokens
  | kind => refuse (.expected wanted kind) tokens

def expect (kind : TokenKind) (tokens : List Token) : Except Refusal (List Token) :=
  if kindOf tokens = kind then .ok tokens.tail else unexpected kind.title tokens

end TokenReader

end LessonScript
