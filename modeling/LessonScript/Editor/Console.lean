import LessonScript.Machine.Host

/-!
A host over a stream of bytes and a text.

Messages are written as lines with a mark in front.  A request for input writes its prompt
and takes the next line of the stream; the ending of the line is dropped, whatever mixture
of carriage returns and line feeds it is.  A line that is not UTF-8 is an error and is
passed over.
-/

namespace LessonScript

abbrev RawLines := List (List UInt8)

namespace RawLines

def ofBytes (bytes : List UInt8) : RawLines :=
  bytes.foldr
    (fun byte lines =>
      if byte = 10 then [byte] :: lines
      else match lines with
        | [] => [[byte]]
        | line :: rest => (byte :: line) :: rest)
    []

def text? (line : List UInt8) : Option String :=
  String.fromUTF8? ⟨line.toArray⟩

end RawLines

def invalidText : String :=
  "stream did not contain valid UTF-8"

/-- A stream of lines to read and a text to write to. -/
structure Console where
  input : RawLines
  written : String
  inputEnabled : Bool
  /-- The reason why nothing can be written, if nothing can. -/
  writeFault : Option String

namespace Console

def ofBytes (bytes : List UInt8) : Console :=
  ⟨.ofBytes bytes, "", true, none⟩

def speechMark : String :=
  "BIT: "

/-- Writes a text.  Nothing to write is written even where nothing can be. -/
def write? (c : Console) (text : String) : Except String Console :=
  match c.writeFault with
  | some reason => if text.isEmpty then .ok c else .error reason
  | none => .ok { c with written := c.written ++ text }

def write (c : Console) (text : String) : Console :=
  match c.write? text with
  | .ok c => c
  | .error _ => c

def trimLineEnd (text : String) : String :=
  String.ofList
    (text.toList.reverse.dropWhile fun c => c == '\n' || c == '\r').reverse

def inputFault (reason : String) : Fault :=
  .argument Builtin.input.name reason

def takeLine (c : Console) : Except Fault String × Console :=
  match c.input with
  | [] => (.error (inputFault "end of input"), c)
  | line :: rest =>
    let c := { c with input := rest }
    match RawLines.text? line with
    | some text => (.ok (trimLineEnd text), c)
    | none => (.error (inputFault invalidText), c)

def ask (c : Console) (prompt : String) : Except Fault String × Console :=
  if c.inputEnabled then
    match c.write? prompt with
    | .ok c => c.takeLine
    | .error reason => (.error (inputFault reason), c)
  else (.error inputUnavailable, c)

def host : Host Console where
  print c message := c.write (speechMark ++ message ++ "\n")
  input c prompt := c.ask prompt

end Console

end LessonScript
