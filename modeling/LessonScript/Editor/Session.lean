import LessonScript.Editor.FileTree
import LessonScript.Editor.Outcome
import LessonScript.Machine.Run
import LessonScript.Program.OfScript

/-!
A script under edit, with the settings under which it runs.

Every run reads the whole script anew and runs it on the machine of the session, which resets itself
first.  What the run leaves in the machine can be inspected afterwards; a script that cannot be read
leaves the machine as it is.
-/

namespace LessonScript

structure Session where
  lines : List String
  /-- The builtins that scripts can reach. -/
  builtins : BuiltinSet
  /-- The machine for the runs, which knows their limits. -/
  vm : Vm

namespace Session

def withSettings (limits : Limits) (builtins : BuiltinSet) : Session :=
  ⟨[], builtins, .withLimits limits⟩

def limits (s : Session) : Limits :=
  s.vm.limits

/-- The number of instructions that the last run began. -/
def steps (s : Session) : Nat :=
  s.vm.steps

def locals (s : Session) : Locals :=
  s.vm.locals

def empty : Session :=
  withSettings .standard .standard

def pushLine (s : Session) (line : String) : Session :=
  { s with lines := s.lines ++ [line] }

def undo (s : Session) : Option String × Session :=
  (s.lines.getLast?, { s with lines := s.lines.dropLast })

def clear (s : Session) : Session :=
  { s with lines := [] }

def loadText (s : Session) (text : String) : Session :=
  { s with lines := (Text.lines text.toList).map String.ofList }

def loadFile? (s : Session) (read : FileReader) (path : String) : Except Error Session :=
  match read path with
  | .ok text => .ok (s.loadText text)
  | .error reason => .error (.ofFault (.unreadable path reason))

def numbered (s : Session) : List String :=
  let width := (Text.natText s.lines.length).length
  s.lines.mapIdx fun index line => Text.padLeft width (Text.natText (index + 1)) ++ " | " ++ line

def program? (s : Session) : Except Error Program :=
  Program.ofLines? s.lines

def run {σ : Type} (s : Session) (host : Host σ) (world : σ) : Outcome × Session × σ :=
  match s.program? with
  | .error error => (.rejected error, s, world)
  | .ok program =>
    let (result, vm, world) := s.vm.run program s.builtins host world
    match result with
    | .ok _ => (.finished vm.steps, { s with vm := vm }, world)
    | .error error => (.failed error vm.steps, { s with vm := vm }, world)

end Session

end LessonScript
