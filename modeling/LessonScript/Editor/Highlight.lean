import LessonScript.Text.CharClass
import LessonScript.Token.Basic
import LessonScript.Value.Builtin

/-!
Colours for a line of a script.

A line is cut into segments, each with a style or none; the coloured line shows every
segment with a style between the escape sequence of the style and the one that resets it.
The segments of a line make up the line (`Highlight.segments_text`), so colours change
nothing but the look.
-/

namespace LessonScript

inductive Style where
  | comment
  | string
  | number
  | constant
  | keyword
  | builtin
  | paren
  deriving DecidableEq

namespace Style

def start : Style → List Char
  | comment => "\x1b[2;3m".toList
  | string => "\x1b[33m".toList
  | number => "\x1b[35m".toList
  | constant => "\x1b[34m".toList
  | keyword => "\x1b[1;32m".toList
  | builtin => "\x1b[36m".toList
  | paren => "\x1b[1m".toList

def reset : List Char :=
  "\x1b[0m".toList

end Style

structure Segment where
  style : Option Style
  text : List Char
  deriving DecidableEq

namespace Segment

def shown (s : Segment) : List Char :=
  match s.style with
  | some style => style.start ++ s.text ++ Style.reset
  | none => s.text

end Segment

namespace Highlight

/-- The part of a text up to the closing quote.  A backslash takes the next character with
it; without a closing quote the part is the whole text. -/
def splitQuoted (quote : Char) : List Char → List Char × List Char
  | [] => ([], [])
  | c :: cs =>
    if c = '\\' then
      match cs with
      | [] => ([c], [])
      | escaped :: cs =>
        let (part, rest) := splitQuoted quote cs
        (c :: escaped :: part, rest)
    else if c = quote then ([c], cs)
    else
      let (part, rest) := splitQuoted quote cs
      (c :: part, rest)

def wordStyle (word : List Char) : Option Style :=
  match Keyword.ofText? (String.ofList word) with
  | some keyword => some (if keyword.isConstant then .constant else .keyword)
  | none => if (Builtin.ofName? (String.ofList word)).isSome then some .builtin else none

def splitSegment (c : Char) (cs : List Char) : Segment × List Char :=
  if c = '#' then (⟨some .comment, c :: cs⟩, [])
  else if c = '\'' ∨ c = '"' then
    let (part, rest) := splitQuoted c cs
    (⟨some .string, c :: part⟩, rest)
  else if c.isDigit then
    let (part, rest) := Text.cutWhile (fun d => d.isAlphanum || d == '.') cs
    (⟨some .number, c :: part⟩, rest)
  else if Text.isNameStart c then
    let (part, rest) := Text.cutWhile Text.isNamePart cs
    (⟨wordStyle (c :: part), c :: part⟩, rest)
  else if c = '(' ∨ c = ')' then (⟨some .paren, [c]⟩, cs)
  else (⟨none, [c]⟩, cs)

theorem splitQuoted_append (quote : Char) (cs : List Char) :
    (splitQuoted quote cs).1 ++ (splitQuoted quote cs).2 = cs := by
  fun_induction splitQuoted quote cs <;> simp_all

theorem splitSegment_append (c : Char) (cs : List Char) :
    (splitSegment c cs).1.text ++ (splitSegment c cs).2 = c :: cs := by
  unfold splitSegment
  split
  · simp
  · split
    · simp [splitQuoted_append]
    · split
      · simp [Text.cutWhile_append]
      · split
        · simp [Text.cutWhile_append]
        · split <;> rfl

theorem length_splitSegment_lt (c : Char) (cs : List Char) :
    (splitSegment c cs).2.length < (c :: cs).length := by
  have hAppend := congrArg List.length (splitSegment_append c cs)
  have hText : 0 < (splitSegment c cs).1.text.length := by
    unfold splitSegment
    repeat' split
    all_goals simp
  simp only [List.length_append] at hAppend
  omega

def segments : List Char → List Segment
  | [] => []
  | c :: cs => (splitSegment c cs).1 :: segments (splitSegment c cs).2
  termination_by cs => cs.length
  decreasing_by exact length_splitSegment_lt c cs

theorem segments_text (cs : List Char) : (segments cs).flatMap Segment.text = cs := by
  fun_induction segments cs with
  | case1 => rfl
  | case2 c cs ih => rw [List.flatMap_cons, ih, splitSegment_append]

def coloured (line : String) : String :=
  String.ofList ((segments line.toList).flatMap Segment.shown)

end Highlight

end LessonScript
