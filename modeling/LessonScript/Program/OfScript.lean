import LessonScript.Program.Emission
import LessonScript.Script.StmtReader

/-!
The program of a script.

Its constants and names are those of the script, its instructions the code of the statements
and two more that end the run with `None`.  It is emitted in one pass (`Script.emit?_eq`).
-/

namespace LessonScript

namespace Program

/-- The program of a script: the code of its statements, and then the end with `None`. -/
def ofScript (script : Script) : Program :=
  let t := Tables.ofStmt script.body
  ofTables t (script.body.code t .outermost 0 ++
    [⟨t.load .nothing, script.lastLine⟩, ⟨.returnValue, script.lastLine⟩])

theorem code_ofScript (script : Script) :
    (ofScript script).code.toList =
      script.body.code (.ofStmt script.body) .outermost 0 ++
        [⟨(Tables.ofStmt script.body).load .nothing, script.lastLine⟩,
          ⟨.returnValue, script.lastLine⟩] :=
  rfl

end Program

def Script.emit? (script : Script) : Except Fault Program := do
  let (p, _) ← script.body.emit? .outermost .empty
  let (p, index) := p.addConstant .nothing
  return (p.put (.loadConst index) script.lastLine).put .returnValue script.lastLine

open Program

theorem Script.emit?_eq (script : Script) : script.emit? = .ok (.ofScript script) := by
  have first : ([] : List Instruction).length = 0 := rfl
  obtain ⟨t, emits, becomes⟩ := script.body.emit?_eq _ (t := ⟨[], []⟩) .outermost first
    (rfl : _ = Tables.ofStmt script.body)
  change script.body.emit? .outermost .empty = _ at emits
  rw [Script.emit?, emits, ok_bind]
  dsimp only
  rw [show Value.nothing = Literal.nothing.value from rfl, addConstant_ofTables, becomes]
  dsimp only
  rw [put_ofTables, put_ofTables, List.append_assoc]
  rfl

namespace Program

def ofSource? (source : String) : Except Error Program := do
  let script ← Script.ofSource? source
  script.emit?.mapError .ofFault

theorem ofSource?_eq (source : String) :
    ofSource? source = (Script.ofSource? source).map ofScript := by
  unfold ofSource?
  cases Script.ofSource? source with
  | error error => rfl
  | ok script =>
      rw [ok_bind, script.emit?_eq]
      rfl

theorem exists_of_isOk (source : String) (accepted : (ofSource? source).isOk = true) :
    ∃ p, ofSource? source = .ok p :=
  exists_ok_of_isOk accepted

theorem exists_of_ofSource? {source : String} {p : Program} (compiled : ofSource? source = .ok p) :
    ∃ script, Script.ofSource? source = .ok script ∧ p = ofScript script := by
  rw [ofSource?_eq] at compiled
  cases read : Script.ofSource? source with
  | error error =>
      rw [read] at compiled
      cases compiled
  | ok script =>
      rw [read] at compiled
      cases compiled
      exact ⟨script, rfl, rfl⟩

def ofLines? (lines : List String) : Except Error Program :=
  ofSource? (Text.joinLines lines)

end Program

end LessonScript
