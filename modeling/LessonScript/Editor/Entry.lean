import LessonScript.Editor.Console
import LessonScript.Editor.Indentation

/-!
What a line editor delivers.

Without a terminal the editor takes its entries from a stream: an entry goes on over
further lines while it leaves parentheses open.  An entry that the stream does not complete
is lost with the end of the input.
-/

namespace LessonScript

/-- The result of one read of the line editor. -/
inductive Entry where
  | line (text : String)
  /-- The entry was given up; the editor goes on. -/
  | interrupted
  /-- The editor cannot read any more. -/
  | failed (error : Error)
  deriving DecidableEq

namespace Entry

def splitLineEnd (text : List Char) : List Char × List Char :=
  if text.getLast? = some '\n' then
    let text := text.dropLast
    if text.getLast? = some '\r' then (text.dropLast, ['\r', '\n']) else (text, ['\n'])
  else (text, [])

/-- Takes one entry from a stream; the text given is the part already read.  Nothing is the
end of the input. -/
def take? : List Char → RawLines → Option Entry × RawLines
  | _, [] => (none, [])
  | before, raw :: rest =>
    match RawLines.text? raw with
    | none => (some (.failed (.ofFault (.internal invalidText))), rest)
    | some text =>
      let whole := before ++ text.toList
      let body := (splitLineEnd whole).1
      if 0 < Indentation.openParens body then take? whole rest
      else (some (.line (String.ofList body)), rest)

theorem length_take?_rest_lt (before : List Char) (lines : RawLines) {entry : Entry}
    {rest : RawLines} (hTake : take? before lines = (some entry, rest)) :
    rest.length < lines.length := by
  induction lines generalizing before with
  | nil => simp [take?] at hTake
  | cons raw lines ih =>
    unfold take? at hTake
    split at hTake
    · simp only [Prod.mk.injEq] at hTake
      rw [← hTake.2]
      simp
    · dsimp only at hTake
      split at hTake
      · have := ih _ hTake
        simp only [List.length_cons]
        omega
      · simp only [Prod.mk.injEq] at hTake
        rw [← hTake.2]
        simp

def allOf (lines : RawLines) : List Entry :=
  match _hTake : take? [] lines with
  | (none, _) => []
  | (some entry, rest) => entry :: allOf rest
  termination_by lines.length
  decreasing_by exact length_take?_rest_lt [] lines ‹_›

end Entry

end LessonScript
