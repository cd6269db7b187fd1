import LessonScript.Token.Lexeme

/-!
Reading a script as tokens, with its layout.

Blocks are shown by indentation.  A logical line begins where no parenthesis is open; its
width is compared with the widths of the open blocks, and the difference becomes indent and
dedent marks.  Blank lines, lines with only a comment, and line feeds inside parentheses
leave no mark.

`Lexer.step` does one of three things: it measures the start of a line, it reads one token
or line feed, or it closes the input.  `Lexer.step_measure` is the reason why `Lexer.run`
ends: every step but the last one uses up a character or the start of a line.
-/

namespace LessonScript

structure Lexer where
  /-- The text still to be read. -/
  rest : List Char
  /-- The place of that text. -/
  position : Position
  /-- The widths of the open blocks, innermost first. -/
  indents : List Nat
  /-- The number of open parentheses. -/
  depth : Nat
  /-- The text starts at the beginning of a line. -/
  atLineStart : Bool
  /-- The current logical line has a token. -/
  lineHasToken : Bool

namespace Lexer

def isBlank (c : Char) : Bool :=
  c == ' ' || c == '\t' || c == '\r' || c == '\x0c'

/-- The width that a blank character extends an indentation to.  A tab goes to the next
multiple of eight, and carriage returns and form feeds have no width.  Widths have 32 bits. -/
def widen (width : UInt32) (c : Char) : UInt32 :=
  if c = ' ' then width + 1
  else if c = '\t' then (width / 8 + 1) * 8
  else width

def widthOf (blanks : List Char) : Nat :=
  (blanks.foldl widen 0).toNat

def splitComment (cs : List Char) : List Char × List Char :=
  match cs with
  | c :: _ => if c = '#' then Text.cutWhile (· != '\n') cs else ([], cs)
  | [] => ([], [])

/-- Splits off what may stand before a token on its line: blanks and a comment. -/
def splitGap (cs : List Char) : List Char × List Char :=
  let (blanks, rest) := Text.cutWhile isBlank cs
  let (comment, rest) := splitComment rest
  (blanks ++ comment, rest)

def start (cs : List Char) : Lexer :=
  ⟨cs, .start, [], 0, true, false⟩

/-- The marks for a logical line of the given width, and the blocks open afterwards. -/
def layoutMarks (position : Position) (indents : List Nat) (width : Nat) :
    List Token × List Nat :=
  if indents.headD 0 < width then ([.mark .indent position], width :: indents)
  else
    let closed := indents.takeWhile (width < ·)
    let kept := indents.dropWhile (width < ·)
    let marks := closed.map fun _ => Token.mark .dedent position
    if kept.headD 0 = width then (marks, kept)
    else (marks ++ [.mark (.fault .unmatchedIndentation) position], kept)

/-- The marks that close the input: the end of the last line, one dedent for each open
block, and the end itself. -/
def closingMarks (s : Lexer) : List Token :=
  (if s.lineHasToken then [Token.mark .newline s.position] else []) ++
    s.indents.map (fun _ => Token.mark .dedent s.position) ++
    [.mark .endOfInput s.position]

/-- The result of one step: the tokens found and the state to go on with, or the tokens
that close the input and the state that stays. -/
inductive Step where
  | more (found : List Token) (next : Lexer)
  | closed (found : List Token) (final : Lexer)

def measureLine (s : Lexer) : Step :=
  let (blanks, rest) := Text.cutWhile isBlank s.rest
  let position := s.position.advanceBy blanks
  match rest with
  | [] => .more [] { s with rest := [], position := position, atLineStart := false }
  | c :: after =>
    if c = '\n' then .more [] { s with rest := after, position := position.advance c }
    else if c = '#' then
      let (comment, rest) := splitComment (c :: after)
      let ended := rest.take 1
      .more [] { s with
        rest := rest.drop 1
        position := (position.advanceBy comment).advanceBy ended }
    else
      let (marks, indents) := layoutMarks position s.indents (widthOf blanks)
      .more marks { s with
        rest := c :: after, position := position, indents := indents, atLineStart := false }

def depthAfter (depth : Nat) : TokenKind → Nat
  | .symbol .leftParen => depth + 1
  | .symbol .rightParen => depth - 1
  | _ => depth

def readToken (s : Lexer) : Step :=
  let (gap, rest) := splitGap s.rest
  let position := s.position.advanceBy gap
  match rest with
  | [] =>
    let final := { s with rest := [], position := position }
    .closed final.closingMarks { final with indents := [], lineHasToken := false }
  | c :: after =>
    if c = '\n' then
      let behind := { s with rest := after, position := position.advance c }
      if 0 < s.depth then .more [] behind
      else
        .more (if s.lineHasToken then [.mark .newline position] else [])
          { behind with atLineStart := true, lineHasToken := false }
    else
      let lexeme := Lexeme.scan c after
      let text := c :: lexeme.tail
      .more [⟨lexeme.kind, position, text⟩] { s with
        rest := lexeme.rest
        position := position.advanceBy text
        depth := depthAfter s.depth lexeme.kind
        lineHasToken := true }

def step (s : Lexer) : Step :=
  if s.atLineStart && s.depth == 0 then s.measureLine else s.readToken

def measure (s : Lexer) : Nat :=
  2 * s.rest.length + if s.atLineStart then 1 else 0

theorem splitComment_append (cs : List Char) :
    (splitComment cs).1 ++ (splitComment cs).2 = cs := by
  unfold splitComment
  split
  · split
    · exact Text.cutWhile_append _ _
    · rfl
  · rfl

theorem splitGap_append (cs : List Char) : (splitGap cs).1 ++ (splitGap cs).2 = cs := by
  simp only [splitGap, List.append_assoc, splitComment_append, Text.cutWhile_append]

theorem measureLine_measure {s next : Lexer} {found : List Token}
    (hStart : s.atLineStart = true) (hStep : s.measureLine = .more found next) :
    next.measure < s.measure := by
  have hBlanks := (List.dropWhile_sublist (p := isBlank) (l := s.rest)).length_le
  unfold measureLine at hStep
  dsimp only [Text.cutWhile] at hStep
  split at hStep
  · cases hStep
    simp [measure, hStart]
  · rename_i c after hRest
    rw [hRest] at hBlanks
    simp only [List.length_cons] at hBlanks
    split at hStep
    · cases hStep
      simp only [measure, hStart]
      omega
    · split at hStep
      · have hComment := congrArg List.length (splitComment_append (c :: after))
        cases hStep
        simp only [measure, hStart, List.length_append, List.length_cons, List.length_drop]
          at hComment ⊢
        rename_i hHash
        have hTaken : 0 < (splitComment (c :: after)).1.length := by
          simp [splitComment, hHash, Text.cutWhile]
        omega
      · cases hStep
        simp only [measure, hStart, List.length_cons]
        simp
        omega

theorem readToken_measure {s next : Lexer} {found : List Token}
    (hStep : s.readToken = .more found next) : next.measure < s.measure := by
  have hGap := congrArg List.length (splitGap_append s.rest)
  unfold readToken at hStep
  simp only [List.length_append] at hGap hStep
  split at hStep
  · cases hStep
  · rename_i c after hRest
    rw [hRest] at hGap
    simp only [List.length_cons] at hGap
    split at hStep
    · split at hStep
      · cases hStep
        simp only [measure]
        split <;> omega
      · cases hStep
        simp only [measure]
        simp
        split <;> omega
    · cases hStep
      have hScan := Lexeme.length_scan_rest_le c after
      simp only [measure]
      split <;> omega

theorem step_measure {s next : Lexer} {found : List Token} (hStep : s.step = .more found next) :
    next.measure < s.measure := by
  unfold step at hStep
  split at hStep
  · rename_i hCondition
    simp only [Bool.and_eq_true] at hCondition
    exact measureLine_measure hCondition.1 hStep
  · exact readToken_measure hStep

/-- Reads to the end of the input.  The tokens found come behind those given, with the
state in which the lexer stays. -/
def run (found : Array Token) (s : Lexer) : Array Token × Lexer :=
  match _hStep : s.step with
  | .closed last final => (found ++ last, final)
  | .more more next => run (found ++ more) next
  termination_by s.measure
  decreasing_by exact step_measure ‹_›

end Lexer

def tokenize (source : String) : List Token :=
  ((Lexer.start source.toList).run #[]).1.toList

end LessonScript
