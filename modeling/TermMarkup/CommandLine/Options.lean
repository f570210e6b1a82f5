/-
  TermMarkup.CommandLine.Options
  ──────────────────────────────
  READING OPTIONS off an argument list.  An option has a long name and perhaps
  a letter; its value is attached (`--width=5`, `-w5`) or is the next argument,
  whatever that looks like.  `--` ends the options, and a lone dash is an
  operand.
-/
import TermMarkup.Text.Alike
import TermMarkup.Text.Quoted

namespace TermMarkup.CommandLine

/-! ## §1. Options. -/

/-- The options of the program. -/
inductive OptionName where
  | help
  | theme
  | logLevel
  | width
  deriving DecidableEq, Repr

namespace OptionName

/-- The long name, dashes included. -/
def long : OptionName → Text
  | help => "--help".toList
  | theme => "--theme".toList
  | logLevel => "--log-level".toList
  | width => "--width".toList

/-- The one-letter name. -/
def letter? : OptionName → Option Char
  | width => some 'w'
  | _ => none

/-- Whether the option has a value; help is a bare switch. -/
def takesValue (name : OptionName) : Bool := name ≠ help

end OptionName

/-- Why an argument list cannot be read. -/
inductive OptionFault where
  /-- An unknown option, with the known ones that are like it. -/
  | noSuchOption (name : Text) (alike : List Text)
  | missingValue (name : Text)
  | unwantedValue (name : Text)
  deriving DecidableEq, Repr

/-- The offer of names that may have been meant, as it follows a message. -/
def offer : List Text → Text
  | [] => []
  | [name] => " Did you mean ".toList ++ name.quoted ++ "?".toList
  | names =>
    " (Did you mean one of: ".toList ++ Text.join [',', ' '] (names.map Text.quoted)
      ++ "?)".toList

/-- The message of a fault. -/
def OptionFault.message : OptionFault → Text
  | noSuchOption name alike =>
    "No such option ".toList ++ name.quoted ++ ".".toList ++ offer alike
  | missingValue name => "Option ".toList ++ name.quoted ++ " requires an argument.".toList
  | unwantedValue name => "Option ".toList ++ name.quoted ++ " does not take a value.".toList

/-- An argument list, read: the options in order with their values (empty for switches), and the
other arguments. -/
structure Arguments where
  settings : List (OptionName × Text)
  operands : List Text
  deriving DecidableEq, Repr

namespace Arguments

/-- Whether an option was given. -/
def has (args : Arguments) (name : OptionName) : Bool := args.settings.any (·.1 = name)

/-- The LAST value of an option. -/
def value? (args : Arguments) (name : OptionName) : Option Text :=
  (args.settings.reverse.find? (·.1 = name)).map (·.2)

/-- The options given, each once, in the order of their first occurrences. -/
def names (args : Arguments) : List OptionName := (args.settings.map (·.1)).eraseDups

/-- Puts an option in front. -/
def addOption (name : OptionName) (value : Text) (args : Arguments) : Arguments :=
  { args with settings := (name, value) :: args.settings }

/-- Puts an operand in front. -/
def addOperand (t : Text) (args : Arguments) : Arguments :=
  { args with operands := t :: args.operands }

end Arguments

/-! ## §2. One argument. -/

/-- What an argument is to the reader. -/
inductive Reading where
  | operand
  | endOfOptions
  /-- A switch, or an option with its value attached. -/
  | complete (name : OptionName) (value : Text)
  /-- An option whose value is the next argument; `shown` is its name as given. -/
  | open (name : OptionName) (shown : Text)
  | faulty (fault : OptionFault)
  deriving DecidableEq, Repr

/-- Splits an argument at its first equals sign. -/
def splitValue (arg : Text) : Text × Option Text :=
  match arg.dropWhile (· != '=') with
  | _ :: value => (arg.takeWhile (· != '='), some value)
  | [] => (arg, none)

/-- Reads an argument that starts with one dash, by its first letter; the rest of the argument is
the letter's value. -/
def readLetter (known : List OptionName) : Text → Reading
  | dash :: letter :: rest =>
    match known.find? (fun name => name.letter? = some letter) with
    | some name => if rest.isEmpty then .open name [dash, letter] else .complete name rest
    | none => .faulty (.noSuchOption [dash, letter] [])
  | _ => .operand

/-- Reads an argument where the options `known` exist. -/
def readArgument (known : List OptionName) (arg : Text) : Reading :=
  if arg = ['-', '-'] then .endOfOptions
  else if arg.head? ≠ some '-' ∨ arg.length < 2 then .operand
  else
    let (shown, attached) := splitValue arg
    match known.find? (fun name => name.long = shown), attached with
    | some name, none => if name.takesValue then .open name shown else .complete name []
    | some name, some value =>
      if name.takesValue then .complete name value else .faulty (.unwantedValue shown)
    | none, _ =>
      if ['-', '-'].isPrefixOf arg then
        .faulty (.noSuchOption shown (Text.alike shown (known.map OptionName.long)))
      else readLetter known arg

/-! ## §3. Argument lists. -/

/-- Reads an argument list.  Where options may not follow operands, the first operand ends them. -/
def readArguments (known : List OptionName) (interspersed : Bool) :
    List Text → Except OptionFault Arguments
  | [] => .ok ⟨[], []⟩
  | arg :: rest =>
    match readArgument known arg with
    | .endOfOptions => .ok ⟨[], rest⟩
    | .operand =>
      if interspersed then return (← readArguments known interspersed rest).addOperand arg
      else .ok ⟨[], arg :: rest⟩
    | .complete name value =>
      return (← readArguments known interspersed rest).addOption name value
    | .open name shown =>
      match rest with
      | value :: rest => return (← readArguments known interspersed rest).addOption name value
      | [] => .error (.missingValue shown)
    | .faulty fault => .error fault

end TermMarkup.CommandLine
