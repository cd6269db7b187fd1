import LessonScript.Text.Lines

/-!
What a line editor needs to know of a script without reading it as tokens: how many
parentheses are still open, and how far the next line should be indented.
-/

namespace LessonScript.Indentation

/-- The open parentheses behind a text, counted from a state: the quote of the string in
which it starts, whether a backslash stands right before it, and the number open so far.
A line feed ends a string, and a comment ends the count. -/
def countOpen : Option Char → Bool → Int → List Char → Int
  | _, _, depth, [] => depth
  | quote, true, depth, _ :: cs => countOpen quote false depth cs
  | some q, false, depth, c :: cs =>
    if c = '\\' then countOpen (some q) true depth cs
    else if c = q ∨ c = '\n' then countOpen none false depth cs
    else countOpen (some q) false depth cs
  | none, false, depth, c :: cs =>
    if c = '\'' ∨ c = '"' then countOpen (some c) false depth cs
    else if c = '(' then countOpen none false (depth + 1) cs
    else if c = ')' then countOpen none false (depth - 1) cs
    else if c = '#' then depth
    else countOpen none false depth cs

def openParens (text : List Char) : Int :=
  countOpen none false 0 text

/-- The line opens a block, judged by the last character before its first number sign. -/
def opensBlock (line : List Char) : Bool :=
  (Text.trimEnd (line.takeWhile (· != '#'))).getLast? == some ':' && openParens line == 0

def lastCodeLine? (lines : List String) : Option (List Char) :=
  (lines.map String.toList).reverse.find? fun line => !(Text.trim line).isEmpty

/-- The indentation for the line behind a script: that of its last line, and one level more
behind a line that opens a block. -/
def next (lines : List String) : String :=
  match lastCodeLine? lines with
  | none => ""
  | some line =>
    let current := Text.leadingSpace line
    String.ofList (if opensBlock line then current ++ [' ', ' ', ' ', ' '] else current)

end LessonScript.Indentation
