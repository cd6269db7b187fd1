import LessonScript.Fault

/-!
How an attempt to run a script ended, as the student reads it.
-/

namespace LessonScript

/-- The end of an attempt to run a script. -/
inductive Outcome where
  /-- The script could not be read; nothing ran. -/
  | rejected (error : Error)
  /-- The script ran to its end. -/
  | finished (steps : Nat)
  /-- The run stopped at a fault. -/
  | failed (error : Error) (steps : Nat)
  deriving DecidableEq

namespace Outcome

def isSuccess : Outcome → Bool
  | finished _ => true
  | _ => false

/-- The number of instructions begun, if the script ran at all. -/
def steps? : Outcome → Option Nat
  | rejected _ => none
  | finished steps | failed _ steps => some steps

def error? : Outcome → Option Error
  | finished _ => none
  | rejected error | failed error _ => some error

def errorLine? (outcome : Outcome) : Option Nat :=
  outcome.error?.bind Error.line?

def text : Outcome → String
  | finished steps => "finished in " ++ Text.natText steps ++ " steps"
  | rejected error | failed error _ => error.describe

def inGreen (text : String) : String :=
  "\x1b[32m" ++ text ++ "\x1b[0m"

def inRed (text : String) : String :=
  "\x1b[31m" ++ text ++ "\x1b[0m"

/-- The outcome in words, green for a success and red otherwise. -/
def colored (outcome : Outcome) : String :=
  if outcome.isSuccess then inGreen outcome.text else inRed outcome.text

end Outcome

end LessonScript
