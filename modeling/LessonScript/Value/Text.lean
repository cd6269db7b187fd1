import LessonScript.Binary64.Decimal
import LessonScript.Value.Basic

/-!
The two texts of a value.

`Value.text` is what `print` shows; `Value.repr` differs from it for texts only, which it
shows as a string literal that reads back.  The literal stands between single quotes unless
the text holds a single quote and no double quote.
-/

namespace LessonScript

def quoteOf (cs : List Char) : Char :=
  if cs.contains '\'' && !cs.contains '"' then '"' else '\''

def escapeChar (quote c : Char) : List Char :=
  if c = '\n' then ['\\', 'n']
  else if c = '\t' then ['\\', 't']
  else if c = '\r' then ['\\', 'r']
  else if c = '\\' then ['\\', '\\']
  else if c = quote then ['\\', c]
  else [c]

def quoteChars (cs : List Char) : List Char :=
  let quote := quoteOf cs
  quote :: (cs.flatMap (escapeChar quote) ++ [quote])

def quoted (s : String) : String :=
  String.ofList (quoteChars s.toList)

def unescape? (c : Char) : Option Char :=
  if c = 'n' then some '\n'
  else if c = 't' then some '\t'
  else if c = 'r' then some '\r'
  else if c = '0' then some '\x00'
  else if c = '\\' ∨ c = '\'' ∨ c = '"' then some c
  else none

namespace Value

def text : Value → String
  | nothing => "None"
  | bool true => "True"
  | bool false => "False"
  | int n => Text.intText n.toInt
  | float x => x.text
  | str s => s
  | builtin f => "<built-in function " ++ f.name ++ ">"
  | range p =>
    let bounds := "range(" ++ Text.intText p.start.toInt ++ ", " ++ Text.intText p.stop.toInt
    if p.step = 1 then bounds ++ ")" else bounds ++ ", " ++ Text.intText p.step.toInt ++ ")"
  | iter (.counting ..) => "<range_iterator>"
  | iter (.spelling ..) => "<str_iterator>"

def repr : Value → String
  | str s => quoted s
  | v => v.text

end Value

end LessonScript
