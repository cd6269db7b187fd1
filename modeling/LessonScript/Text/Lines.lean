import LessonScript.Text.CharClass

/-!
Cutting text at line feeds and at white space.

`segments` cuts at every line feed and keeps the last piece even when it is empty, so it
loses nothing but the line feeds.  `lineAround` finds the piece around one place, searching
both ways.  `lines` is the reading of a text file as lines: a line ends in a line feed, one
carriage return before it belongs to the ending, and an empty last piece is no line.
-/

namespace LessonScript.Text

def byteLength (cs : List Char) : Nat :=
  cs.foldl (fun total c => total + c.utf8Size) 0

/-- The pieces between line feeds: one more than there are line feeds. -/
def segments (cs : List Char) : List (List Char) :=
  cs.foldr
    (fun c pieces =>
      if c = '\n' then [] :: pieces
      else match pieces with
        | [] => [[c]]
        | piece :: rest => (c :: piece) :: rest)
    [[]]

/-- The text in front of a byte offset, turned round, and the text behind it. -/
def cutAtByte (before : List Char) : Nat → List Char → List Char × List Char
  | _, [] => (before, [])
  | offset, c :: cs =>
    if offset < c.utf8Size then (before, c :: cs)
    else cutAtByte (c :: before) (offset - c.utf8Size) cs

/-- The line that a byte offset lies in, from the line feed before it to the next one. -/
def lineAround (cs : List Char) (offset : Nat) : List Char :=
  let (before, after) := cutAtByte [] offset cs
  (before.takeWhile (· != '\n')).reverse ++ after.takeWhile (· != '\n')

def dropCarriageReturn (cs : List Char) : List Char :=
  if cs.getLast? = some '\r' then cs.dropLast else cs

def lines (cs : List Char) : List (List Char) :=
  let pieces := segments cs
  let unfinished := pieces.getLastD []
  pieces.dropLast.map dropCarriageReturn ++ (if unfinished.isEmpty then [] else [unfinished])

def trimStart (cs : List Char) : List Char :=
  cs.dropWhile isSpace

def trimEnd (cs : List Char) : List Char :=
  (cs.reverse.dropWhile isSpace).reverse

def trim (cs : List Char) : List Char :=
  trimEnd (trimStart cs)

def leadingSpace (cs : List Char) : List Char :=
  cs.takeWhile isSpace

def splitAtSpace (cs : List Char) : Option (List Char × List Char) :=
  match cutWhile (fun c => !isSpace c) cs with
  | (_, []) => none
  | (word, _ :: rest) => some (word, rest)

def joinLines (pieces : List String) : String :=
  String.intercalate "\n" pieces

/-- Blank space followed by the text, together at least `width` characters. -/
def padLeft (width : Nat) (text : String) : String :=
  String.ofList (List.replicate (width - text.length) ' ') ++ text

/-- The text followed by blank space, together at least `width` characters. -/
def padRight (width : Nat) (text : String) : String :=
  text ++ String.ofList (List.replicate (width - text.length) ' ')

theorem leadingSpace_append_trimStart (cs : List Char) :
    leadingSpace cs ++ trimStart cs = cs :=
  List.takeWhile_append_dropWhile

end LessonScript.Text
