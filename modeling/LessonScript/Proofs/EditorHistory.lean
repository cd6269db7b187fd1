import LessonScript.Editor.Repl
import LessonScript.Proofs.ListingReading

/-!
The script editor over a sequence of entries.

What an entry is, is said on its text without the surrounding blank space (`Repl.IsCommand`), and
what it does to the lines of the script is one relation (`Repl.Edits`).  One entry changes the
lines as that relation says and nothing else, unless it is the command to run; a run is the run
of the program that the lines hold (`Repl.handle_spec`).  From this, by induction on the entries:
whatever came before, an entry finds the settings of the start, and a run depends on nothing that
an earlier run left in the machine, for a machine resets itself first (`Vm.run_eq_fresh`); it starts
from the state in which the host is left (`Repl.edits_and_runs_buffer`).
-/

namespace LessonScript

namespace Vm

variable {σ : Type} (vm : Vm) (p : Program) (builtins : BuiltinSet) (host : Host σ) (world : σ)

/-- Nothing that earlier runs have left in a machine outlasts its reset. -/
theorem reset_eq_fresh : vm.reset builtins = (withLimits vm.limits).reset builtins :=
  rfl

theorem run_eq_fresh :
    vm.run p builtins host world = (withLimits vm.limits).run p builtins host world := by
  unfold run run?
  rw [vm.reset_eq_fresh]

variable {vm p builtins host world} in
theorem limits_of_run? {result : Except Error Value} {after : Vm} {behind : σ}
    (ended : vm.run? p builtins host world = some (result, after, behind)) :
    after.limits = vm.limits := by
  obtain ⟨finish, _, same⟩ := Option.map_eq_some_iff.mp ended
  cases same
  rfl

end Vm

def RunReport.outcome {σ : Type} (report : RunReport σ) : Outcome :=
  match report.result with
  | .ok _ => .finished report.steps
  | .error error => .failed error report.steps

namespace Repl

/-- The entry is a command: without the blank space around it, it starts with a colon.  The name
goes up to the first blank, and the argument is what follows. -/
structure IsCommand (entry name argument : String) : Prop where
  colon : name.toList.head? = some ':'
  unbroken : ∀ c ∈ name.toList, Text.isSpace c = false
  parts : (Text.trim entry.toList = name.toList ∧ argument = "") ∨
    ∃ blank rest, Text.trim entry.toList = name.toList ++ blank :: rest ∧
      Text.isSpace blank = true ∧ argument.toList = Text.trim rest

theorem IsCommand.commandOf?_eq {entry name argument : String}
    (command : IsCommand entry name argument) : commandOf? entry = some (name, argument) := by
  obtain ⟨colon, unbroken, ⟨whole, rfl⟩ | ⟨blank, rest, whole, isBlank, argued⟩⟩ := command
  · have cut := Text.splitAtSpace_eq_none_iff.mpr unbroken
    simp only [commandOf?, whole, colon, if_true, cut, String.ofList_toList]
  · have cut := Text.splitAtSpace_append unbroken isBlank rest
    have colon' : (name.toList ++ blank :: rest).head? = some ':' := by
      rw [List.head?_append, colon, Option.some_or]
    simp only [commandOf?, whole, colon', if_true, cut, ← argued, String.ofList_toList]

theorem isCommand_of_commandOf? {entry name argument : String}
    (found : commandOf? entry = some (name, argument)) : IsCommand entry name argument := by
  unfold commandOf? at found
  dsimp only at found
  split_ifs at found with colon
  split at found
  · rename_i word rest cut
    obtain ⟨blank, whole, isBlank, unbroken⟩ := Text.exists_of_splitAtSpace cut
    cases found
    refine ⟨?_, ?_, .inr ⟨blank, rest, ?_, isBlank, String.toList_ofList⟩⟩
    · cases word with
      | nil =>
          rw [whole] at colon
          cases colon
          exact absurd isBlank (by decide)
      | cons c word =>
          rw [whole] at colon
          rwa [String.toList_ofList]
    · rwa [String.toList_ofList]
    · rwa [String.toList_ofList]
  · rename_i cut
    cases found
    refine ⟨?_, ?_, .inl ⟨String.toList_ofList.symm, rfl⟩⟩
    · rwa [String.toList_ofList]
    · rw [String.toList_ofList]
      exact Text.splitAtSpace_eq_none_iff.mp cut

theorem commandOf?_eq_none_iff {entry : String} :
    commandOf? entry = none ↔ (Text.trim entry.toList).head? ≠ some ':' := by
  simp only [commandOf?]
  split_ifs with colon
  · split <;> simp [colon]
  · simp [colon]

/-- The entry is the command to run the script. -/
def IsRun (entry : String) : Prop :=
  ∃ name argument, IsCommand entry name argument ∧ (name = ":run" ∨ name = ":r")

/-- What an entry does to the lines of the script, where files are read with `read`. -/
inductive Edits (read : FileReader) (entry : String) (lines : List String) :
    List String → Prop where
  | blank (blank : Text.trim entry.toList = []) : Edits read entry lines lines
  | add (visible : Text.trim entry.toList ≠ [])
      (plain : (Text.trim entry.toList).head? ≠ some ':') :
      Edits read entry lines (lines ++ (Text.lines entry.toList).map String.ofList)
  | undo {name argument : String} (command : IsCommand entry name argument)
      (named : name = ":undo" ∨ name = ":u") : Edits read entry lines lines.dropLast
  | clear {argument : String} (command : IsCommand entry ":clear" argument) :
      Edits read entry lines []
  | load {path text : String} (command : IsCommand entry ":load" path) (path_ne : path ≠ "")
      (readable : read path = .ok text) :
      Edits read entry lines ((Text.lines text.toList).map String.ofList)
  | failedLoad {path reason : String} (command : IsCommand entry ":load" path)
      (unreadable : read path = .error reason) : Edits read entry lines lines
  | noPath (command : IsCommand entry ":load" "") : Edits read entry lines lines
  | other {name argument : String} (command : IsCommand entry name argument)
      (another : name ∉ [":undo", ":u", ":clear", ":load"]) : Edits read entry lines lines

variable {σ : Type}

/-- What the command to run does to an editor: the program of its lines runs on the host and on a new
machine, which the session keeps, or nothing happens if they hold no program.  Of a run that goes
on forever only the lines and the settings are told. -/
inductive Runs (host : Host σ) (limits : Limits) (builtins : BuiltinSet) (r : Repl σ) :
    Reply → Repl σ → Prop where
  | rejected {error : Error} (refused : Program.ofLines? r.session.lines = .error error) :
      Runs host limits builtins r (.goOn [(Outcome.rejected error).colored]) r
  | ran {program : Program} {result : Except Error Value} {vm : Vm} {world : σ}
      (compiled : Program.ofLines? r.session.lines = .ok program)
      (ended : (Vm.withLimits limits).run? program builtins host r.world =
        some (result, vm, world)) :
      Runs host limits builtins r (.goOn [(Vm.report (result, vm, world)).outcome.colored])
        { r with session := { r.session with vm := vm }, world := world }
  | endless {program : Program} {reply : Reply} {vm : Vm} {world : σ}
      (compiled : Program.ofLines? r.session.lines = .ok program)
      (endless : (Vm.withLimits limits).run? program builtins host r.world = none)
      (kept : vm.limits = limits) :
      Runs host limits builtins r reply
        { r with session := { r.session with vm := vm }, world := world }

/-- What an entry does to an editor: the command to run runs the script, and any other entry
changes at most the lines. -/
inductive Answers (read : FileReader) (host : Host σ) (limits : Limits) (builtins : BuiltinSet)
    (entry : String) (r : Repl σ) : Reply → Repl σ → Prop where
  | run {reply : Reply} {after : Repl σ} (command : IsRun entry)
      (runs : Runs host limits builtins r reply after) :
      Answers read host limits builtins entry r reply after
  | edit {reply : Reply} {lines : List String} (another : ¬ IsRun entry)
      (edits : Edits read entry r.session.lines lines) :
      Answers read host limits builtins entry r reply
        { r with session := { r.session with lines := lines } }

section Answers

variable {read : FileReader} {host : Host σ} {entry : String}

theorem addLines_eq (session : Session) (entry : List Char) :
    addLines session entry =
      { session with lines := session.lines ++ (Text.lines entry).map String.ofList } := by
  unfold addLines
  induction Text.lines entry generalizing session with
  | nil => simp
  | cons line rest ih =>
      rw [List.foldl_cons, ih]
      simp [Session.pushLine]

theorem runs_of_run (host : Host σ) (r : Repl σ) :
    Runs host r.session.limits r.session.builtins r
      (.goOn [(r.session.run host r.world).1.colored])
      { r with
        session := (r.session.run host r.world).2.1
        world := (r.session.run host r.world).2.2 } := by
  unfold Session.run
  cases compiled : r.session.program? with
  | error error => exact .rejected compiled
  | ok program =>
      have fresh := r.session.vm.run_eq_fresh program r.session.builtins host r.world
      cases ended : (Vm.withLimits r.session.limits).run? program r.session.builtins host
          r.world with
      | none =>
          have ran := fresh.trans (congrArg (Option.getD · _) ended)
          dsimp only
          rw [ran]
          exact .endless compiled ended rfl
      | some outcome =>
          obtain ⟨result, vm, world⟩ := outcome
          have ran := fresh.trans (congrArg (Option.getD · _) ended)
          dsimp only
          rw [ran]
          cases result with
          | ok _ => exact .ran compiled ended
          | error _ => exact .ran compiled ended

theorem handle_spec (read : FileReader) (host : Host σ) (r : Repl σ) (entry : String) :
    Answers read host r.session.limits r.session.builtins entry r (handle read host r entry).1
      (handle read host r entry).2 := by
  unfold handle
  cases found : commandOf? entry with
  | none =>
      have plain := commandOf?_eq_none_iff.mp found
      have another : ¬ IsRun entry := by
        rintro ⟨name, argument, command, _⟩
        rw [command.commandOf?_eq] at found
        cases found
      dsimp only
      split_ifs with blank
      · exact Answers.edit another (.blank (List.isEmpty_iff.mp blank))
      · rw [addLines_eq]
        exact .edit another (.add (fun empty => blank (List.isEmpty_iff.mpr empty)) plain)
  | some found' =>
      obtain ⟨name, argument⟩ := found'
      have command := isCommand_of_commandOf? found
      dsimp only
      unfold Repl.command
      split_ifs with run list shown dis undo clear load help quit
      · exact .run ⟨_, _, command, run⟩ (runs_of_run host r)
      all_goals
        have another : ¬ IsRun entry := by
          rintro ⟨other, otherArgument, command', run'⟩
          cases command'.commandOf?_eq.symm.trans found
          exact run run'
      · exact Answers.edit another (.other command (by rcases list with rfl | rfl <;> decide))
      · exact Answers.edit another (.other command (by rcases list with rfl | rfl <;> decide))
      · exact Answers.edit another (.other command (by rcases dis with rfl | rfl <;> decide))
      · exact .edit another (.undo command undo)
      · subst clear
        exact .edit another (.clear command)
      · obtain ⟨rfl, path_ne⟩ := load
        unfold Session.loadFile?
        cases readable : read argument with
        | ok text => exact .edit another (.load command path_ne readable)
        | error reason => exact Answers.edit another (.failedLoad command readable)
      · exact Answers.edit another (.other command (by rcases help with rfl | rfl | rfl <;> decide))
      · exact Answers.edit another (.other command (by rcases quit with rfl | rfl | rfl <;> decide))
      · refine Answers.edit another ?_
        by_cases noPath : name = ":load"
        · subst noPath
          have empty : argument = "" := not_not.mp fun path_ne => load ⟨rfl, path_ne⟩
          subst empty
          exact .noPath command
        · apply Edits.other command
          simp only [List.mem_cons, List.not_mem_nil, or_false, not_or]
          exact ⟨fun same => undo (.inl same), fun same => undo (.inr same), clear, noPath⟩

theorem Edits.handle_lines {r : Repl σ} {lines : List String}
    (edits : Edits read entry r.session.lines lines) :
    (handle read host r entry).2.session.lines = lines := by
  have kept : (r.session.run host r.world).2.1.lines = r.session.lines := by
    unfold Session.run
    split
    · rfl
    · dsimp only
      split <;> rfl
  unfold handle
  cases edits with
  | blank blank =>
      have none : commandOf? entry = none := commandOf?_eq_none_iff.mpr (by simp [blank])
      simp [none, isBlank, blank]
  | add visible plain =>
      simp [commandOf?_eq_none_iff.mpr plain, isBlank, visible, addLines_eq]
  | undo command named =>
      rw [command.commandOf?_eq]
      rcases named with rfl | rfl <;> rfl
  | clear command =>
      rw [command.commandOf?_eq]
      rfl
  | load command path_ne readable =>
      rw [command.commandOf?_eq]
      simp [Repl.command, path_ne, Session.loadFile?, readable, Session.loadText]
  | @failedLoad path _ command unreadable =>
      rw [command.commandOf?_eq]
      by_cases path_ne : path = "" <;>
        simp [Repl.command, path_ne, Session.loadFile?, unreadable]
  | noPath command =>
      rw [command.commandOf?_eq]
      rfl
  | other command another =>
      rw [command.commandOf?_eq]
      simp only [List.mem_cons, List.not_mem_nil, or_false, not_or] at another
      simp only [Repl.command, another, or_self, false_and, if_false]
      split_ifs
      · exact kept
      all_goals rfl

theorem Edits.of_isRun (run : IsRun entry) (lines : List String) :
    Edits read entry lines lines := by
  obtain ⟨name, argument, command, named⟩ := run
  exact .other command (by rcases named with rfl | rfl <;> decide)

theorem Answers.edits {limits : Limits} {builtins : BuiltinSet} {r after : Repl σ} {reply : Reply}
    (answers : Answers read host limits builtins entry r reply after) :
    Edits read entry r.session.lines after.session.lines := by
  cases answers with
  | run run runs => cases runs <;> exact .of_isRun run _
  | edit _ edits => exact edits

theorem handle_lines_iff {r : Repl σ} {lines : List String} :
    (handle read host r entry).2.session.lines = lines ↔
      Edits read entry r.session.lines lines := by
  refine ⟨?_, Edits.handle_lines⟩
  rintro rfl
  exact (handle_spec read host r entry).edits

end Answers

/-- The editor behind entries, each with the files as they are when it is entered. -/
def handleAll (host : Host σ) : Repl σ → List (FileReader × String) → Repl σ
  | r, [] => r
  | r, (read, entry) :: rest => handleAll host (handle read host r entry).2 rest

theorem Answers.settings_eq {read : FileReader} {host : Host σ} {builtins : BuiltinSet}
    {entry : String} {r after : Repl σ} {reply : Reply}
    (answers : Answers read host r.session.limits builtins entry r reply after) :
    after.session.limits = r.session.limits ∧ after.session.builtins = r.session.builtins := by
  cases answers with
  | edit => exact ⟨rfl, rfl⟩
  | run _ runs =>
      cases runs with
      | rejected => exact ⟨rfl, rfl⟩
      | ran _ ended => exact ⟨Vm.limits_of_run? ended, rfl⟩
      | endless _ _ kept => exact ⟨kept, rfl⟩

theorem handleAll_settings (host : Host σ) (r : Repl σ) (entries : List (FileReader × String)) :
    (handleAll host r entries).session.limits = r.session.limits ∧
      (handleAll host r entries).session.builtins = r.session.builtins := by
  induction entries generalizing r with
  | nil => exact ⟨rfl, rfl⟩
  | cons entry rest ih =>
      obtain ⟨limits, builtins⟩ := (handle_spec entry.1 host r entry.2).settings_eq
      have later := ih (handle entry.1 host r entry.2).2
      rwa [limits, builtins] at later

/-- Behind any entries, an entry makes of the lines what it says, and changes nothing else unless
it is the command to run.  That command runs the program of the lines on the host as the entries
left it, with the settings of the start and from a fresh machine, whatever ran before; lines that
hold no program leave everything as it is. -/
theorem edits_and_runs_buffer (host : Host σ) (start : Repl σ)
    (earlier : List (FileReader × String)) (read : FileReader) (entry : String) :
    let before := handleAll host start earlier
    let answer := handle read host before entry
    (∀ lines, answer.2.session.lines = lines ↔ Edits read entry before.session.lines lines) ∧
      Answers read host start.session.limits start.session.builtins entry before
        answer.1 answer.2 := by
  obtain ⟨limits, builtins⟩ := handleAll_settings host start earlier
  rw [← limits, ← builtins]
  exact ⟨fun _ => handle_lines_iff, handle_spec read host _ entry⟩

end Repl

end LessonScript
