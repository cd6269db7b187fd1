import LessonScript.CommandLine

/-!
The executable: it reads the standard input and the files that the arguments name, leaves
the work to `CommandLine.run`, and writes what that reports.
-/

namespace LessonScript.CommandLine

/-- The number of a system error, which some calls report as a negative number. -/
def errorNumber (code : UInt32) : UInt32 :=
  if code < 0x80000000 then code else 0 - code

def reasonOf (error : IO.Error) : String :=
  match error with
  | .noFileOrDirectory .. => FileFault.missing.message
  | .inappropriateType _ code _ | .illegalOperation code _ =>
    if errorNumber code = 20 then FileFault.notDirectory.message
    else if errorNumber code = 21 then FileFault.isDirectory.message
    else toString error
  | error => toString error

def readText (path : String) : IO (Except String String) := do
  try
    match String.fromUTF8? (← IO.FS.readBinFile path) with
    | some text => return .ok text
    | none => return .error FileFault.invalidText.message
  catch error => return .error (reasonOf error)

end LessonScript.CommandLine

open LessonScript in
def main (args : List String) : IO UInt32 := do
  let input ←
    if CommandLine.readsInput args then
      pure (← (← IO.getStdin).readBinToEnd).toList
    else pure []
  let texts ← (CommandLine.paths args input).mapM fun path => do
    return (path, ← CommandLine.readText path)
  let read : FileReader := fun path =>
    (texts.lookup path).getD (.error FileFault.missing.message)
  let report := CommandLine.run read args input
  IO.print report.output
  IO.eprint report.errors
  return report.exitCode.toUInt32
