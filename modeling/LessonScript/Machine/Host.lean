import LessonScript.Fault
import LessonScript.Value.Builtin

/-!
What a run can do to the world outside.

A host shows messages and answers requests for a line of text; it is given by how each of
the two changes its state.  `Recorder` keeps what it is told and answers from a list, and
`Speaker` only shows messages.
-/

namespace LessonScript

/-- How a state of type `σ` serves as the world outside a run. -/
structure Host (σ : Type) where
  /-- Shows one message. -/
  print : σ → String → σ
  /-- Asks for one line of text with a prompt. -/
  input : σ → String → Except Fault String × σ

def inputUnavailable : Fault :=
  .call (.unavailable Builtin.input.name)

/-- A host that records messages and prompts, and answers from a list. -/
structure Recorder where
  messages : Array String
  prompts : Array String
  inputs : List String

namespace Recorder

def ofInputs (inputs : List String) : Recorder :=
  ⟨#[], #[], inputs⟩

def clearMessages (r : Recorder) : Recorder :=
  { r with messages := #[] }

def host : Host Recorder where
  print r message := { r with messages := r.messages.push message }
  input r prompt :=
    let r := { r with prompts := r.prompts.push prompt }
    match r.inputs with
    | [] => (.error (.argument Builtin.input.name "no more input"), r)
    | line :: rest => (.ok line, { r with inputs := rest })

end Recorder

structure Speaker where
  messages : Array String

namespace Speaker

def host : Host Speaker where
  print s message := ⟨s.messages.push message⟩
  input s _ := (.error inputUnavailable, s)

end Speaker

end LessonScript
