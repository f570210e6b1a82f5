/-
  TermMarkup.Main
  ───────────────
  THE EXECUTABLE: it hands arguments, environment, files and standard input to
  the program and carries its outcome out.
-/
import TermMarkup.CommandLine.Program

namespace TermMarkup

/-! ## §1. Files. -/

/-- The system's error number for a path that leads nowhere. -/
def missingErrno : UInt32 := 2

/-- The system's error number for a path through a file. -/
def blockedErrno : UInt32 := 20

/-- The system's error number for reading a directory as a file. -/
def directoryErrno : UInt32 := 21

/-- The system's error number for a path that is too long. -/
def longPathErrno : UInt32 := 36

/-- An error of the system about a path, by its number. -/
def systemWords (path : Text) (errno : UInt32) (details : String) : Text :=
  "[Errno ".toList ++ digitsOf errno.toNat ++ "] ".toList ++ details.toList ++ ": ".toList
    ++ path.quoted

/-- What a path of the real file system leads to. -/
def lookAt (path : Text) : IO Lookup := do
  try
    let bytes ← IO.FS.readBinFile (String.ofList path)
    return .found (.file (bytes.toList.map UInt8.toNat))
  catch
    | .noFileOrDirectory _ errno details =>
      return if errno = missingErrno then .missing else .refused (systemWords path errno details)
    | .inappropriateType _ errno details =>
      return if errno = directoryErrno then .found .directory
        else if errno = blockedErrno then .blocked
        else .refused (systemWords path errno details)
    | .invalidArgument _ errno details =>
      return if errno = longPathErrno then .tooLong
        else .refused (systemWords path errno details)
    | .permissionDenied _ errno details =>
      return .unreadable false (systemWords path errno details)
    | other => return .refused (toString other).toList

/-- How many arrays and objects of a theme file may stand inside one another. -/
def jsonLevels : Nat := 990

/-- The reader of JSON here. -/
def jsonReader : JsonReader := ⟨jsonLevels, fun _ => "the text is no JSON".toList⟩

/-! ## §2. Runs. -/

/-- The whole standard input. -/
partial def readInput (input : IO.FS.Stream) (sofar : String) : IO String := do
  let line ← input.getLine
  if line.isEmpty then return sofar else readInput input (sofar ++ line)

/-- Writes an outcome out and gives the exit code.  The log is stamped with the clock of the machine
at that moment, in milliseconds. -/
def report (outcome : CommandLine.Outcome) : IO UInt32 := do
  let now := digitsOf (← IO.monoMsNow)
  IO.print (String.ofList outcome.stdout)
  IO.eprint (String.ofList (outcome.errorOutput fun _ => now))
  match outcome.crash with
  | some fault => IO.eprintln (String.ofList (CommandLine.errorLine fault.message))
  | none => pure ()
  return outcome.exitCode.toUInt32

end TermMarkup

open TermMarkup in
/-- Runs the program. -/
def main (args : List String) : IO UInt32 := do
  let args := args.map String.toList
  let themePath? := (← IO.getEnv (String.ofList Theme.variableName)).map String.toList
  let seen ← (CommandLine.pathsOf themePath? args).mapM fun path => return (path, ← lookAt path)
  let look := fun path => ((seen.find? (·.1 = path)).map (·.2)).getD .missing
  match CommandLine.run ⟨look, themePath?, jsonReader⟩ args with
  | .finished outcome => report outcome
  | .awaitsInput resume => report (resume (← readInput (← IO.getStdin) "").toList)
