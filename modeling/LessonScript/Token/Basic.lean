import LessonScript.Binary64.Basic
import LessonScript.Text.Lines

/-!
Tokens of scripts.

A token is a piece of the text with its place, or a layout mark: the end of a logical line,
a change of indentation or the end of the input.  Text that is no token of the language
becomes a token of its own that carries the complaint, so that reading a script never stops
early.
-/

namespace LessonScript

inductive Keyword where
  | «true»
  | «false»
  | nothing
  | and
  | or
  | not
  | «if»
  | «elif»
  | «else»
  | «while»
  | «for»
  | «in»
  | «break»
  | «continue»
  | pass
  deriving DecidableEq

namespace Keyword

def all : List Keyword :=
  [«true», «false», nothing, and, or, not, «if», «elif», «else», «while», «for», «in»,
    «break», «continue», pass]

def text : Keyword → String
  | «true» => "True"
  | «false» => "False"
  | nothing => "None"
  | and => "and"
  | or => "or"
  | not => "not"
  | «if» => "if"
  | «elif» => "elif"
  | «else» => "else"
  | «while» => "while"
  | «for» => "for"
  | «in» => "in"
  | «break» => "break"
  | «continue» => "continue"
  | pass => "pass"

def ofText? (text : String) : Option Keyword :=
  all.find? fun keyword => keyword.text == text

def isConstant : Keyword → Bool
  | «true» | «false» | nothing => Bool.true
  | _ => Bool.false

end Keyword

inductive Symbol where
  | plus
  | minus
  | star
  | slash
  | doubleSlash
  | percent
  | eq
  | ne
  | lt
  | gt
  | le
  | ge
  | assign
  | plusAssign
  | minusAssign
  | starAssign
  | slashAssign
  | leftParen
  | rightParen
  | comma
  | colon
  deriving DecidableEq

namespace Symbol

def all : List Symbol :=
  [plus, minus, star, slash, doubleSlash, percent, eq, ne, lt, gt, le, ge, assign, plusAssign,
    minusAssign, starAssign, slashAssign, leftParen, rightParen, comma, colon]

def chars : Symbol → List Char
  | plus => ['+']
  | minus => ['-']
  | star => ['*']
  | slash => ['/']
  | doubleSlash => ['/', '/']
  | percent => ['%']
  | eq => ['=', '=']
  | ne => ['!', '=']
  | lt => ['<']
  | gt => ['>']
  | le => ['<', '=']
  | ge => ['>', '=']
  | assign => ['=']
  | plusAssign => ['+', '=']
  | minusAssign => ['-', '=']
  | starAssign => ['*', '=']
  | slashAssign => ['/', '=']
  | leftParen => ['(']
  | rightParen => [')']
  | comma => [',']
  | colon => [':']

def ofChars? (cs : List Char) : Option Symbol :=
  all.find? fun symbol => symbol.chars == cs

def isAssignment : Symbol → Bool
  | assign | plusAssign | minusAssign | starAssign | slashAssign => true
  | _ => false

end Symbol

/-- A complaint about a piece of text that is no token. -/
inductive LexicalFault where
  | unmatchedIndentation
  | unexpectedCharacter (c : Char)
  | unterminatedString
  | invalidEscape (c : Char)
  | invalidNumber (text : List Char)
  | integerTooLarge (text : List Char)
  deriving DecidableEq

namespace LexicalFault

def message : LexicalFault → String
  | unmatchedIndentation => "unindent does not match any outer indentation level"
  | unexpectedCharacter c => "unexpected character: " ++ String.ofList [c]
  | unterminatedString => "unterminated string literal"
  | invalidEscape c => "invalid escape sequence: \\" ++ String.ofList [c]
  | invalidNumber text => "invalid number: " ++ String.ofList text
  | integerTooLarge text => "integer literal too large: " ++ String.ofList text

end LexicalFault

inductive TokenKind where
  | int (n : Int64)
  | float (x : Binary64)
  | str (s : String)
  | name (s : String)
  | keyword (k : Keyword)
  | symbol (s : Symbol)
  | newline
  | indent
  | dedent
  | endOfInput
  | fault (f : LexicalFault)
  deriving DecidableEq

namespace TokenKind

def title : TokenKind → String
  | int _ => "integer"
  | float _ => "float"
  | str _ => "string"
  | name _ => "name"
  | keyword k => "'" ++ k.text ++ "'"
  | symbol s => "'" ++ String.ofList s.chars ++ "'"
  | newline => "end of line"
  | indent => "indent"
  | dedent => "dedent"
  | endOfInput => "end of input"
  | fault _ => "error"

end TokenKind

/-- A place in a text: bytes before it, and line and column counted from one. -/
structure Position where
  offset : Nat
  line : Nat
  column : Nat
  deriving DecidableEq, Inhabited

namespace Position

def start : Position :=
  ⟨0, 1, 1⟩

def advance (p : Position) (c : Char) : Position :=
  if c = '\n' then ⟨p.offset + c.utf8Size, p.line + 1, 1⟩
  else ⟨p.offset + c.utf8Size, p.line, p.column + 1⟩

def advanceBy (p : Position) (cs : List Char) : Position :=
  cs.foldl advance p

end Position

/-- A token with its place and the text it covers; layout marks cover none. -/
structure Token where
  kind : TokenKind
  position : Position
  lexeme : List Char
  deriving DecidableEq

namespace Token

def mark (kind : TokenKind) (position : Position) : Token :=
  ⟨kind, position, []⟩

def stop (t : Token) : Nat :=
  t.position.offset + Text.byteLength t.lexeme

end Token

end LessonScript
