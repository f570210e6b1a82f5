/-
  TermMarkup.CommandLine.Usage
  ────────────────────────────
  COMMANDS AND THEIR HELP TEXTS, and the form of a usage error.
-/
import TermMarkup.CommandLine.Options

namespace TermMarkup.CommandLine

/-! ## §1. Commands. -/

/-- A command of the program. -/
inductive Command where
  | render
  | reshape
  | strip
  | width
  deriving DecidableEq, Repr

namespace Command

def all : List Command := [render, reshape, strip, width]

def name : Command → Text
  | render => "render".toList
  | reshape => "reshape".toList
  | strip => "strip".toList
  | width => "width".toList

/-- The command of a name. -/
def ofName? (t : Text) : Option Command := all.find? fun command => command.name = t

/-- What the command does, in one sentence. -/
def summary : Command → Text
  | render => "Compile markup into ANSI escape sequences.".toList
  | reshape => "Wrap styled text to a column width.".toList
  | strip => "Remove markup and ANSI sequences.".toList
  | width => "Print the visible width of each line.".toList

/-- The options of the command. -/
def options : Command → List OptionName
  | reshape => [.width, .help]
  | _ => [.help]

end Command

/-! ## §2. Usage. -/

/-- The name under which the program is called. -/
def programName : Text := "styledtext".toList

/-- Whose usage a message is about: the program's, or a command's. -/
abbrev Subject := Option Command

namespace Subject

/-- The words that call the subject. -/
def call : Subject → Text
  | none => programName
  | some command => programName ++ ' ' :: command.name

/-- The forms of arguments that the subject takes. -/
def forms : Subject → Text
  | none => "[OPTIONS] [COMMAND] [ARGS]...".toList
  | some _ => "[OPTIONS] [TEXT]".toList

/-- The usage line. -/
def usage (s : Subject) : Text := "Usage: ".toList ++ s.call ++ ' ' :: s.forms ++ ['\n']

/-- The option table of the help text. -/
def optionHelp : Subject → Text
  | none =>
    ("  --theme FILE                    JSON theme file (defaults to\n"
      ++ "                                  $STYLEDTEXT_THEME)\n"
      ++ "  --log-level [debug|info|warning|error]\n"
      ++ "                                  Logging level\n"
      ++ "  --help                          Show this message and exit.\n").toList
  | some .reshape =>
    ("  -w, --width INTEGER  Target width  [default: 80]\n"
      ++ "  --help               Show this message and exit.\n").toList
  | some _ => "  --help  Show this message and exit.\n".toList

/-- What the subject does. -/
def summary : Subject → Text
  | none => "Render markup to ANSI and reflow styled text.".toList
  | some command => command.summary

/-- The list of commands in the program's help text: names in a column of nine. -/
def commandHelp : Text :=
  "\nCommands:\n".toList ++ Command.all.flatMap fun command =>
    ' ' :: ' ' :: command.name ++ List.replicate (9 - command.name.length) ' '
      ++ command.summary ++ ['\n']

/-- The help text. -/
def help (s : Subject) : Text :=
  s.usage ++ "\n  ".toList ++ s.summary ++ "\n\nOptions:\n".toList ++ s.optionHelp
    ++ if s.isNone then commandHelp else []

end Subject

/-! ## §3. Errors. -/

/-- The last line of an error. -/
def errorLine (message : Text) : Text := "Error: ".toList ++ message ++ ['\n']

/-- An error with the usage of its subject and a hint at the help. -/
def usageError (s : Subject) (message : Text) : Text :=
  s.usage ++ "Try '".toList ++ s.call ++ " --help' for help.\n\n".toList ++ errorLine message

/-- The message for a name that no command has. -/
def noSuchCommand (name : Text) : Text :=
  "No such command ".toList ++ name.quoted ++ ".".toList
    ++ offer (Text.alike name (Command.all.map Command.name))

/-- The text of an option fault.  Only an unknown option comes with the usage. -/
def OptionFault.report (s : Subject) (fault : OptionFault) : Text :=
  match fault with
  | noSuchOption _ _ => usageError s fault.message
  | missingValue _ | unwantedValue _ => errorLine fault.message

end TermMarkup.CommandLine
