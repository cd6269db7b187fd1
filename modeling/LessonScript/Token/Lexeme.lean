import LessonScript.Binary64.Reading
import LessonScript.Token.Basic
import LessonScript.Value.Text

/-!
Reading one token from the start of a text.

`Lexeme.scan c cs` reads the token that begins with `c` and goes on in `cs`.  The result
says how much of `cs` belongs to the token; `Lexeme.scan_append` states that nothing is
lost or invented: the characters taken and the characters left make up `cs`.
-/

namespace LessonScript

/-- A token read behind its first character: what it says, the further characters that
belong to it, and the characters left. -/
structure Lexeme where
  kind : TokenKind
  tail : List Char
  rest : List Char

namespace Lexeme

/-- Reads the part of a string literal behind the opening quote.  The value and the
characters taken so far come last first. -/
def scanString (quote : Char) : List Char → List Char → List Char → Lexeme
  | [], _, taken => ⟨.fault .unterminatedString, taken.reverse, []⟩
  | c :: cs, value, taken =>
    if c = quote then ⟨.str (String.ofList value.reverse), (c :: taken).reverse, cs⟩
    else if c = '\\' then
      match cs with
      | [] => ⟨.fault .unterminatedString, (c :: taken).reverse, []⟩
      | letter :: cs =>
        match unescape? letter with
        | some escaped => scanString quote cs (escaped :: value) (letter :: c :: taken)
        | none =>
          let complaint :=
            if letter = '\n' then LexicalFault.unterminatedString
            else LexicalFault.invalidEscape letter
          ⟨.fault complaint, (c :: taken).reverse, letter :: cs⟩
    else if c = '\n' then ⟨.fault .unterminatedString, taken.reverse, c :: cs⟩
    else scanString quote cs (c :: value) (c :: taken)

/-- The digits of a number behind its first character, with the point and the digits behind
it; true when there is a point. -/
def scanDigits (c : Char) (cs : List Char) : List Char × Bool × List Char :=
  if c = '.' then
    let (digits, rest) := Text.cutWhile Char.isDigit cs
    (digits, true, rest)
  else
    let (digits, rest) := Text.cutWhile Char.isDigit cs
    match rest with
    | '.' :: rest =>
      let (fraction, rest) := Text.cutWhile Char.isDigit rest
      (digits ++ '.' :: fraction, true, rest)
    | rest => (digits, false, rest)

/-- The exponent of a number, if the text goes on with one: the letter, at most one sign,
and at least one digit. -/
def scanExponent (cs : List Char) : List Char × List Char :=
  match cs with
  | mark :: rest =>
    if mark = 'e' ∨ mark = 'E' then
      let (sign, rest) := match rest with
        | sign :: digits => if sign = '+' ∨ sign = '-' then ([sign], digits) else ([], rest)
        | [] => ([], [])
      let (digits, rest) := Text.cutWhile Char.isDigit rest
      if digits.isEmpty then ([], cs) else (mark :: (sign ++ digits), rest)
    else ([], cs)
  | [] => ([], [])

/-- The letters that spoil a number, if the text goes on with a name. -/
def scanSuffix (cs : List Char) : List Char × List Char :=
  match cs with
  | c :: _ => if Text.isNameStart c then Text.cutWhile Text.isNamePart cs else ([], cs)
  | [] => ([], [])

def numberKind (isFloat : Bool) (text : List Char) : TokenKind :=
  if isFloat then
    match Binary64.ofChars? text with
    | some x => .float x
    | none => .fault (.invalidNumber text)
  else
    match Text.readInt64? text with
    | some n => .int n
    | none => .fault (.integerTooLarge text)

def scanNumber (c : Char) (cs : List Char) : Lexeme :=
  let (front, hasPoint, rest) := scanDigits c cs
  let (exponent, rest) := scanExponent rest
  let (suffix, rest) := scanSuffix rest
  let tail := front ++ exponent ++ suffix
  let kind :=
    if suffix.isEmpty then numberKind (hasPoint || !exponent.isEmpty) (c :: tail)
    else .fault (.invalidNumber (c :: tail))
  ⟨kind, tail, rest⟩

def wordKind (text : List Char) : TokenKind :=
  match Keyword.ofText? (String.ofList text) with
  | some keyword => .keyword keyword
  | none => .name (String.ofList text)

def scanWord (c : Char) (cs : List Char) : Lexeme :=
  let (tail, rest) := Text.cutWhile Text.isNamePart cs
  ⟨wordKind (c :: tail), tail, rest⟩

def scanSingle (c : Char) (cs : List Char) : Lexeme :=
  match Symbol.ofChars? [c] with
  | some symbol => ⟨.symbol symbol, [], cs⟩
  | none => ⟨.fault (.unexpectedCharacter c), [], cs⟩

/-- Reads an operator or delimiter, the longest one that fits. -/
def scanSymbol (c : Char) (cs : List Char) : Lexeme :=
  match cs with
  | second :: rest =>
    match Symbol.ofChars? [c, second] with
    | some symbol => ⟨.symbol symbol, [second], rest⟩
    | none => scanSingle c cs
  | [] => scanSingle c []

def startsWithDigit : List Char → Bool
  | c :: _ => c.isDigit
  | [] => false

def scan (c : Char) (cs : List Char) : Lexeme :=
  if c = '"' ∨ c = '\'' then scanString c cs [] []
  else if c.isDigit || (c == '.' && startsWithDigit cs) then scanNumber c cs
  else if Text.isNameStart c then scanWord c cs
  else scanSymbol c cs

theorem scanString_append (quote : Char) (cs value taken : List Char) :
    (scanString quote cs value taken).tail ++ (scanString quote cs value taken).rest =
      taken.reverse ++ cs := by
  fun_induction scanString quote cs value taken <;> simp_all

theorem scanDigits_append (c : Char) (cs : List Char) :
    (scanDigits c cs).1 ++ (scanDigits c cs).2.2 = cs := by
  have hCut := Text.cutWhile_append Char.isDigit cs
  unfold scanDigits
  split
  · exact hCut
  · dsimp only
    split
    · rename_i rest hRest
      rw [hRest] at hCut
      simp only [List.append_assoc, List.cons_append, Text.cutWhile_append, hCut]
    · exact hCut

theorem scanExponent_append (cs : List Char) :
    (scanExponent cs).1 ++ (scanExponent cs).2 = cs := by
  unfold scanExponent
  split
  · rename_i mark rest
    split
    · dsimp only
      split
      · split
        · split
          · rfl
          · simp [Text.cutWhile_append]
        · split
          · rfl
          · simp [Text.cutWhile_append]
      · rfl
    · rfl
  · rfl

theorem scanSuffix_append (cs : List Char) : (scanSuffix cs).1 ++ (scanSuffix cs).2 = cs := by
  unfold scanSuffix
  split
  · split
    · exact Text.cutWhile_append _ _
    · rfl
  · rfl

theorem scanNumber_append (c : Char) (cs : List Char) :
    (scanNumber c cs).tail ++ (scanNumber c cs).rest = cs := by
  have hDigits := scanDigits_append c cs
  have hExponent := scanExponent_append (scanDigits c cs).2.2
  have hSuffix := scanSuffix_append (scanExponent (scanDigits c cs).2.2).2
  simp only [scanNumber, List.append_assoc]
  rw [hSuffix, hExponent, hDigits]

theorem scanSymbol_append (c : Char) (cs : List Char) :
    (scanSymbol c cs).tail ++ (scanSymbol c cs).rest = cs := by
  have hSingle (cs : List Char) : (scanSingle c cs).tail ++ (scanSingle c cs).rest = cs := by
    unfold scanSingle
    split <;> rfl
  unfold scanSymbol
  split
  · split
    · rfl
    · exact hSingle _
  · exact hSingle _

theorem scan_append (c : Char) (cs : List Char) :
    (scan c cs).tail ++ (scan c cs).rest = cs := by
  unfold scan
  split
  · simpa using scanString_append c cs [] []
  · split
    · exact scanNumber_append c cs
    · split
      · exact Text.cutWhile_append _ _
      · exact scanSymbol_append c cs

theorem length_scan_rest_le (c : Char) (cs : List Char) :
    (scan c cs).rest.length ≤ cs.length := by
  have hAppend := congrArg List.length (scan_append c cs)
  simp only [List.length_append] at hAppend
  omega

end Lexeme

end LessonScript
