/-
  TermMarkup.CommandLine.Program
  ──────────────────────────────
  THE PROGRAM: from arguments, environment and files to an outcome.  A command
  without a text argument needs the standard input, so a run is either finished
  or waits for that.

  The order of complaints: the program's options, the command's name, the
  theme, the command's options, its text.
-/
import TermMarkup.CommandLine.ControlSequence
import TermMarkup.CommandLine.Log
import TermMarkup.Measure.Visible

namespace TermMarkup.CommandLine

/-! ## §1. Outcomes. -/

/-- How a run ends.  The records of the log come on the standard error before the text of `stderr`.
A `crash` is a fault that no usage error covers; the trace that it leaves is no part of `stderr`. -/
structure Outcome where
  exitCode : Nat
  stdout : Text
  log : List LogRecord := []
  stderr : Text
  crash : Option Fault := none
  deriving DecidableEq, Repr

/-- All that goes to the standard error, if the record with the number `i` is made at `time i`. -/
def Outcome.errorOutput (time : Nat → Text) (outcome : Outcome) : Text :=
  (outcome.log.zipIdx.flatMap fun (r, i) => r.line (time i)) ++ outcome.stderr

/-- The outcome with records in front of its log. -/
def Outcome.after (records : List LogRecord) (outcome : Outcome) : Outcome :=
  { outcome with log := records ++ outcome.log }

/-- The outcome as it is with the log on or off. -/
def Outcome.logged (on : Bool) (outcome : Outcome) : Outcome :=
  { outcome with log := if on then outcome.log else [] }

/-- Success with some output. -/
def Outcome.success (stdout : Text) : Outcome := { exitCode := 0, stdout, stderr := [] }

/-- A usage error, by the text of its report. -/
def Outcome.misuse (report : Text) : Outcome :=
  { exitCode := 2, stdout := [], stderr := ControlSequence.remove report }

/-- A crash. -/
def Outcome.crashed (fault : Fault) : Outcome :=
  { exitCode := 1, stdout := [], stderr := [], crash := some fault }

/-- A run: finished, or waiting for the standard input. -/
inductive Pending where
  | finished (outcome : Outcome)
  | awaitsInput (resume : Text → Outcome)

/-- The outcome of a run whose standard input is `input`. -/
def Pending.outcome (input : Text) : Pending → Outcome
  | finished outcome => outcome
  | awaitsInput resume => resume input

/-- The run with its outcome changed. -/
def Pending.map (change : Outcome → Outcome) : Pending → Pending
  | finished outcome => .finished (change outcome)
  | awaitsInput resume => .awaitsInput fun input => change (resume input)

/-- The run of steps that end early with an outcome or go on to a run. -/
def Pending.ofSteps : Except Outcome Pending → Pending
  | .ok pending => pending
  | .error outcome => .finished outcome

/-! ## §2. The work of a command. -/

/-- Line ends as newlines: a carriage return, with a newline after it or not, is one. -/
def uniformNewlines : Text → Text
  | '\r' :: '\n' :: rest => '\n' :: uniformNewlines rest
  | '\r' :: rest => '\n' :: uniformNewlines rest
  | c :: rest => c :: uniformNewlines rest
  | [] => []

/-- The text that the standard input holds: without newlines at its end. -/
def inputText (input : Text) : Text := Text.trimEndBy (· == '\n') (uniformNewlines input)

/-- The output of a command for a text. -/
def Command.output (command : Command) (theme : Theme) (width : Int) (t : Text) :
    Except Fault Text :=
  match command with
  | .render => return (← t.render theme) ++ ['\n']
  | .reshape => return (← t.wrap theme width none) ++ ['\n']
  | .strip => return ControlSequence.remove ((← t.clean) ++ ['\n'])
  | .width => .ok ((Text.lines t).flatMap fun line => digitsOf (Text.visibleWidth line) ++ ['\n'])

/-- Runs a command on a text.  Faulty markup is a usage error. -/
def Command.work (command : Command) (theme : Theme) (width : Int) (t : Text) : Outcome :=
  match command.output theme width t with
  | .ok out => .success out
  | .error fault =>
    if fault.kind = .markup then .misuse (usageError (some command) fault.message)
    else .crashed fault

/-! ## §3. Values of options. -/

/-- The message for a value that an option does not take. -/
def invalidValue (option problem : Text) : Text :=
  "Invalid value for ".toList ++ option ++ ": ".toList ++ problem

/-- The names of the log levels. -/
def logLevels : List Text := ["debug", "info", "warning", "error"].map String.toList

/-- How a run ends over the value of an option of the program, if the value is not taken.  A path
that no system looks up is a crash, any other bad value a usage error. -/
def refusal? (look : Text → Lookup) (name : OptionName) (value : Text) : Option Outcome :=
  let misuse := fun problem =>
    Outcome.misuse (usageError none (invalidValue name.long.quoted problem))
  match name with
  | .theme =>
    if value.holdsNull then some (.crashed .nullCharacter)
    else match look value with
      | .found (.file _) | .unreadable true _ => none
      | .found .directory =>
        some (misuse ("File ".toList ++ value.quoted ++ " is a directory.".toList))
      | .unreadable false _ =>
        some (misuse ("File ".toList ++ value.quoted ++ " is not readable.".toList))
      | .missing | .blocked | .tooLong | .refused _ =>
        some (misuse ("File ".toList ++ value.quoted ++ " does not exist.".toList))
  | .logLevel =>
    if logLevels.contains value then none
    else some (misuse (value.quoted ++ " is not one of ".toList
      ++ Text.join [',', ' '] (logLevels.map Text.quoted) ++ ['.']))
  | _ => none

/-- The width of a line where none is given. -/
def defaultWidth : Int := 80

/-- The width that the arguments of a command ask for. -/
def widthOf (args : Arguments) : Except Text Int :=
  match args.value? .width with
  | none => .ok defaultWidth
  | some value =>
    match Integer.read value with
    | .ok n => .ok n
    | .error _ => .error (invalidValue "'--width' / '-w'".toList
        (value.quoted ++ " is not a valid integer.".toList))

/-! ## §4. The program. -/

/-- The options of the program itself. -/
def programOptions : List OptionName := [.theme, .logLevel, .help]

/-- Reads and checks the program's own arguments: its options, of which help comes first of all,
then the others in the order in which they were given. -/
def readProgram (look : Text → Lookup) (args : List Text) : Except Outcome Arguments :=
  match readArguments programOptions false args with
  | .error fault => .error (.misuse (fault.report none))
  | .ok args =>
    if args.has .help then .error (.success (Subject.help none))
    else
      match args.names.findSome? fun name => refusal? look name ((args.value? name).getD []) with
      | some outcome => .error outcome
      | none => .ok args

/-- Finds the command that the operands name.  A name with a dash in front can only stand after the
end of the options; it is then read as an option once more. -/
def findCommand (look : Text → Lookup) (name : Text) (operands : List Text) :
    Except Outcome Command :=
  match Command.ofName? name with
  | some command => .ok command
  | none => do
    if name.head? = some '-' then let _ ← readProgram look operands
    .error (.misuse (usageError none (noSuchCommand name)))

/-- How a run ends whose theme cannot be loaded.  What is wrong inside a theme file is a usage
error. -/
def themeFailure (fault : Fault) : Outcome :=
  if fault.kind = .value ∨ fault.kind = .encoding then
    .misuse (usageError none (invalidValue OptionName.theme.long fault.message))
  else .crashed fault

/-- Whether the log is kept: all its records are for debugging. -/
def Arguments.logs (args : Arguments) : Bool := args.value? .logLevel = some "debug".toList

/-- Loads the theme and goes on with it. -/
def withTheme (around : Surroundings) (args : Arguments) (next : Theme → Pending) : Pending :=
  let path? := args.value? .theme
  let loaded := match Theme.load around path? with
    | .ok theme => (next theme).map (Outcome.after [Theme.useRecord path?])
    | .error fault => .finished (themeFailure fault)
  (loaded.map (Outcome.after (Theme.loadRecords around path?))).map (Outcome.logged args.logs)

/-- The message for operands that nothing asks for. -/
def extraOperands (operands : List Text) : Text :=
  (if operands.length = 1 then "Got unexpected extra argument (".toList
    else "Got unexpected extra arguments (".toList)
    ++ Text.join [' '] operands ++ [')']

/-- Reads a command's arguments and runs it. -/
def Command.start (command : Command) (theme : Theme) (args : List Text) : Pending :=
  .ofSteps do
    match readArguments command.options true args with
    | .error fault => .error (.misuse (fault.report (some command)))
    | .ok args => do
      if args.has .help then .error (.success (Subject.help (some command)))
      let misuse := fun message => Outcome.misuse (usageError (some command) message)
      let width ← (widthOf args).mapError misuse
      let work := fun t => (command.work theme width t).after (command.records theme width t)
      match args.operands with
      | _ :: second :: more => .error (misuse (extraOperands (second :: more)))
      | [t] => return .finished (work t)
      | [] => return .awaitsInput fun input => work (inputText input)

/-- Runs the program on an argument list. -/
def run (around : Surroundings) (args : List Text) : Pending :=
  .ofSteps do
    let own ← readProgram around.look args
    match own.operands with
    | [] => return withTheme around own fun _ => .finished (.success (Subject.help none))
    | name :: rest =>
      let command ← findCommand around.look name own.operands
      return withTheme around own fun theme => command.start theme rest

/-- The paths that a run may look at: the values of the theme option, those behind the end of the
options included, and the theme variable, each as given and in short form. -/
def pathsOf (themeVariable : Option Text) (args : List Text) : List Text :=
  let given := settingsOf args
  let paths := given ++ themeVariable.toList
  paths ++ paths.map normalPath
where
  settingsOf (args : List Text) : List Text :=
    match readArguments programOptions false args with
    | .ok own =>
      let again := match readArguments programOptions false own.operands with
        | .ok more => more.settings
        | .error _ => []
      ((own.settings ++ again).filter (·.1 = .theme)).map (·.2)
    | .error _ => []

end TermMarkup.CommandLine
