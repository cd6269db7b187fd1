import LessonScript.Editor.Entry
import LessonScript.Editor.Session
import LessonScript.Program.Listing

/-!
The script editor.

An entry that starts with a colon is a command; any other entry that is not blank adds its
lines to the script.  Nothing runs before the command to run, which reads and runs the
whole script.  Only that command reaches the host.

`Repl.run` answers a list of entries; what it asks of the line editor is kept as a list of
`EditorCall`s, and what it shows goes to a `Screen`.
-/

namespace LessonScript

inductive EditorCall where
  /-- Offer these words for completion. -/
  | offer (words : List String)
  /-- Read an entry with a prompt, starting with an indentation if it is not empty. -/
  | read (prompt indent : String)
  /-- Remember an entry. -/
  | remember (entry : String)
  deriving DecidableEq

structure Screen (σ : Type) extends Host σ where
  display : σ → String → σ

inductive Reply where
  | goOn (lines : List String)
  | quit
  deriving DecidableEq

/-- The script editor at work: its session, its requests to the line editor, and the state
of the host. -/
structure Repl (σ : Type) where
  session : Session
  calls : Array EditorCall
  world : σ

namespace Repl

def commands : List (String × String) :=
  [(":run", "tokenize and run the script"),
    (":list", "show the script with line numbers"),
    (":dis", "show the compiled bytecode"),
    (":undo", "remove the last line"),
    (":clear", "remove every line"),
    (":load PATH", "replace the script with a file"),
    (":help", "show this help"),
    (":quit", "leave the editor")]

def completionWords (builtins : BuiltinSet) : List String :=
  Keyword.all.map Keyword.text ++ builtins.toList.map Builtin.name ++
    commands.map fun command => String.ofList (command.1.toList.takeWhile (· != ' '))

def helpLines : List String :=
  ["Type script lines to add them to BIT's program.", "Commands:"] ++
    commands.map fun command => "  " ++ Text.padRight 12 command.1 ++ " " ++ command.2

def version : String :=
  "0.1.0"

def banner : String :=
  "\x1b[1;36mBitQuest script editor v" ++ version ++ "\x1b[0m\n" ++
    "Type script lines, then :run. :help lists commands, Ctrl+D exits.\n\n"

def start {σ : Type} (world : σ) : Repl σ :=
  ⟨.empty, #[.offer (completionWords BuiltinSet.standard)], world⟩

def withSession {σ : Type} (r : Repl σ) (session : Session) : Repl σ :=
  { r with session := session, calls := r.calls.push (.offer (completionWords session.builtins)) }

def disassemblyLines (session : Session) : List String :=
  match session.program? with
  | .ok program => (Text.lines program.disassembly.toList).map String.ofList
  | .error error => [(Outcome.rejected error).colored]

def command {σ : Type} (read : FileReader) (host : Host σ) (r : Repl σ)
    (name argument : String) : Reply × Repl σ :=
  if name = ":run" ∨ name = ":r" then
    let (outcome, session, world) := r.session.run host r.world
    (.goOn [outcome.colored], { r with session := session, world := world })
  else if name = ":list" ∨ name = ":l" then
    (.goOn (if r.session.lines.isEmpty then ["(empty script)"] else r.session.numbered), r)
  else if name = ":dis" ∨ name = ":d" then (.goOn (disassemblyLines r.session), r)
  else if name = ":undo" ∨ name = ":u" then
    let (line, session) := r.session.undo
    (.goOn [line.elim "nothing to undo" ("removed: " ++ ·)], { r with session := session })
  else if name = ":clear" then
    (.goOn ["script cleared"], { r with session := r.session.clear })
  else if name = ":load" ∧ argument ≠ "" then
    match r.session.loadFile? read argument with
    | .ok session =>
      (.goOn ["loaded " ++ Text.natText session.lines.length ++ " lines"],
        { r with session := session })
    | .error error => (.goOn [Outcome.inRed error.fault.message], r)
  else if name = ":help" ∨ name = ":h" ∨ name = ":?" then (.goOn helpLines, r)
  else if name = ":quit" ∨ name = ":q" ∨ name = ":exit" then (.quit, r)
  else (.goOn ["unknown command " ++ name ++ "; try :help"], r)

def addLines (session : Session) (entry : List Char) : Session :=
  (Text.lines entry).foldl (fun session line => session.pushLine (String.ofList line)) session

def commandOf? (entry : String) : Option (String × String) :=
  let text := Text.trim entry.toList
  if text.head? = some ':' then
    match Text.splitAtSpace text with
    | some (name, argument) => some (String.ofList name, String.ofList (Text.trim argument))
    | none => some (String.ofList text, "")
  else none

def loadPath? : Entry → Option String
  | .line entry =>
    match commandOf? entry with
    | some (":load", path) => some path
    | _ => none
  | _ => none

def isBlank (entry : String) : Bool :=
  (Text.trim entry.toList).isEmpty

def handle {σ : Type} (read : FileReader) (host : Host σ) (r : Repl σ) (entry : String) :
    Reply × Repl σ :=
  match commandOf? entry with
  | some (name, argument) => command read host r name argument
  | none =>
    if isBlank entry then (.goOn [], r)
    else (.goOn [], { r with session := addLines r.session entry.toList })

def promptFor (session : Session) : String :=
  Text.padLeft 3 (Text.natText (session.lines.length + 1)) ++ "> "

def ask {σ : Type} (r : Repl σ) : Repl σ :=
  { r with
    calls := r.calls.push (.read (promptFor r.session) (Indentation.next r.session.lines)) }

def display {σ : Type} (screen : Screen σ) (r : Repl σ) (text : String) : Repl σ :=
  { r with world := screen.display r.world text }

def loop {σ : Type} (read : FileReader) (screen : Screen σ) (r : Repl σ) :
    List Entry → Except Error Unit × Repl σ
  | [] => (.ok (), display screen r.ask "\nBye!\n")
  | .failed error :: _ => (.error error, r.ask)
  | .interrupted :: rest => loop read screen (display screen r.ask "\n") rest
  | .line entry :: rest =>
    let r := r.ask
    if isBlank entry then loop read screen r rest
    else
      let r := { r with calls := r.calls.push (.remember entry) }
      match handle read screen.toHost r entry with
      | (.quit, r) => (.ok (), display screen r "\nBye!\n")
      | (.goOn lines, r) =>
        loop read screen (display screen r (String.join (lines.map (· ++ "\n")))) rest

def run {σ : Type} (read : FileReader) (screen : Screen σ) (showBanner : Bool) (r : Repl σ)
    (entries : List Entry) : Except Error Unit × Repl σ :=
  loop read screen (if showBanner then display screen r banner else r) entries

end Repl

end LessonScript
