import LessonScript.Editor.Repl

/-!
The command line of the program.

The arguments are read from left to right into `Options`, and the first that cannot be read
ends the program.  Help and version come before all else.  Then each file is run in a
session of its own, or its instructions are shown; all of them share one standard input and
one standard output.  A file that cannot be read ends the program, a script that fails only
changes the exit code.  Without a request to stop there, the editor takes over.
-/

namespace LessonScript

structure Options where
  files : List String
  help : Bool
  version : Bool
  /-- Stop behind the files. -/
  batch : Bool
  /-- Show the instructions of a file instead of running it. -/
  disassemble : Bool
  noInput : Bool
  trace : Bool
  maxSteps : Option Nat
  unbounded : Bool
  deriving DecidableEq

inductive OptionFault where
  | missingSteps
  | invalidSteps (text : String)
  | unknownOption (text : String)
  deriving DecidableEq

namespace OptionFault

def message : OptionFault → String
  | missingSteps => "--max-steps requires a value"
  | invalidSteps text => "invalid --max-steps value: " ++ text
  | unknownOption text => "unknown option: " ++ text

end OptionFault

namespace Options

def initial : Options :=
  ⟨[], false, false, false, false, false, false, none, false⟩

/-- The options with one more argument, which is an option without a value or a file. -/
def withArgument (o : Options) (arg : String) : Except OptionFault Options :=
  match arg with
  | "-h" | "--help" => .ok { o with help := true }
  | "-V" | "--version" => .ok { o with version := true }
  | "-b" | "--batch" => .ok { o with batch := true }
  | "--dis" => .ok { o with disassemble := true }
  | "--no-input" => .ok { o with noInput := true }
  | "--trace-vm" => .ok { o with trace := true }
  | "--unbounded" => .ok { o with unbounded := true }
  | arg =>
    if arg.toList.head? = some '-' then .error (.unknownOption arg)
    else .ok { o with files := o.files ++ [arg] }

def ofArguments? (o : Options) : List String → Except OptionFault Options
  | [] => .ok o
  | "--max-steps" :: [] => .error .missingSteps
  | "--max-steps" :: text :: rest =>
    match Text.readNatBelow? 0x10000000000000000 text.toList with
    | some steps => ofArguments? { o with maxSteps := some steps } rest
    | none => .error (.invalidSteps text)
  | arg :: rest =>
    match o.withArgument arg with
    | .ok o => ofArguments? o rest
    | .error fault => .error fault

def limits (o : Options) : Limits :=
  let base := if o.unbounded then Limits.unbounded else Limits.standard
  { base with maxSteps := o.maxSteps.or base.maxSteps, trace := o.trace }

def builtins (o : Options) : BuiltinSet :=
  if o.noInput then BuiltinSet.standard.erase .input else BuiltinSet.standard

def session (o : Options) : Session :=
  .withSettings o.limits o.builtins

end Options

namespace CommandLine

def helpText : String :=
  String.join ([
    "\x1b[1mBitQuest\x1b[0m - Script interpreter for BIT the robot dog",
    "",
    "\x1b[1mUSAGE:\x1b[0m",
    "    bitquest [OPTIONS] [FILES...]",
    "",
    "\x1b[1mARGUMENTS:\x1b[0m",
    "    [FILES...]    Scripts to run before starting the editor",
    "",
    "\x1b[1mOPTIONS:\x1b[0m",
    "    -h, --help         Print help information",
    "    -V, --version      Print version information",
    "    -b, --batch        Run files and exit (no editor)",
    "    --dis              Print the bytecode for each file instead of running it",
    "    --no-input         Disable the input() builtin",
    "    --max-steps N      Step budget for each run (default 100000)",
    "    --unbounded        No step budget",
    "",
    "\x1b[1mDEBUG OPTIONS:\x1b[0m",
    "    --trace-vm         Log every dispatched instruction (to stderr)",
    "",
    "\x1b[1mEXAMPLES:\x1b[0m",
    "    bitquest                      Start the script editor",
    "    bitquest fetch.bq             Run fetch.bq, then start the editor",
    "    bitquest -b fetch.bq          Run fetch.bq and exit",
    "    bitquest --dis fetch.bq       Show the compiled bytecode",
    "",
    "\x1b[1mEDITOR COMMANDS:\x1b[0m",
    "    :run                 Tokenize and run the script",
    "    :list                Show the script with line numbers",
    "    :dis                 Show the compiled bytecode",
    "    :undo / :clear       Remove the last line / every line",
    "    :load PATH           Replace the script with a file",
    "    :quit                Exit (or Ctrl+D)",
    "",
    "Set RUST_LOG (e.g. RUST_LOG=debug) for interpreter logging."].map (· ++ "\n"))

def versionText : String :=
  "bitquest " ++ Repl.version ++ "\n"

structure Terminal where
  console : Console
  errors : String
  /-- A script failed. -/
  failed : Bool

structure Report where
  exitCode : Nat
  output : String
  errors : String
  deriving DecidableEq

namespace Terminal

def reportFailure (t : Terminal) (path : String) (outcome : Outcome) : Terminal :=
  { t with
    errors := t.errors ++ Outcome.inRed (path ++ ": " ++ outcome.text) ++ "\n"
    failed := true }

def report (t : Terminal) (exitCode : Nat) : Report :=
  ⟨exitCode, t.console.written, t.errors⟩

def abort (t : Terminal) (message : String) : Report :=
  ⟨1, t.console.written, t.errors ++ Outcome.inRed ("Error: " ++ message) ++ "\n"⟩

end Terminal

def showFile (t : Terminal) (path : String) (session : Session) : Terminal :=
  match session.program? with
  | .ok program => { t with console := t.console.write (program.disassembly ++ "\n") }
  | .error error => t.reportFailure path (.rejected error)

def runFile (t : Terminal) (path : String) (session : Session) : Terminal :=
  let (outcome, _, console) := session.run Console.host t.console
  let t := { t with console := console }
  if outcome.isSuccess then t else t.reportFailure path outcome

/-- Goes through the files; the first that cannot be read ends it. -/
def runFiles (read : FileReader) (o : Options) : List String → Terminal →
    Except Error Unit × Terminal
  | [], t => (.ok (), t)
  | path :: rest, t =>
    match o.session.loadFile? read path with
    | .error error => (.error error, t)
    | .ok session =>
      runFiles read o rest
        (if o.disassemble then showFile t path session else runFile t path session)

def screen : Screen Console :=
  { Console.host with display := Console.write }

/-- Hands over to the editor, which takes the rest of the standard input as its entries. -/
def edit (read : FileReader) (o : Options) (t : Terminal) : Report :=
  let entries := Entry.allOf t.console.input
  let editor := (Repl.start { t.console with input := [] }).withSession o.session
  let (result, editor) := editor.run read screen o.files.isEmpty entries
  let t := { t with console := editor.world }
  match result with
  | .ok () => t.report 0
  | .error error => t.abort error.fault.message

def runOptions (read : FileReader) (o : Options) (t : Terminal) : Report :=
  if o.help then { t with console := t.console.write helpText }.report 0
  else if o.version then { t with console := t.console.write versionText }.report 0
  else
    match runFiles read o o.files t with
    | (.error error, t) => t.abort error.fault.message
    | (.ok (), t) =>
      if o.batch || o.disassemble then t.report (if t.failed then 1 else 0)
      else edit read o t

def readsInput (args : List String) : Bool :=
  match Options.initial.ofArguments? args with
  | .ok o => !(o.help || o.version || o.disassemble)
  | .error _ => false

/-- The paths that the program may read: its files, and what the entries of the editor ask
to load. -/
def paths (args : List String) (input : List UInt8) : List String :=
  match Options.initial.ofArguments? args with
  | .ok o => o.files ++ (Entry.allOf (.ofBytes input)).filterMap Repl.loadPath?
  | .error _ => []

def run (read : FileReader) (args : List String) (input : List UInt8) : Report :=
  let t : Terminal := ⟨.ofBytes input, "", false⟩
  match Options.initial.ofArguments? args with
  | .ok o => runOptions read o t
  | .error fault => t.abort fault.message

end CommandLine

end LessonScript
