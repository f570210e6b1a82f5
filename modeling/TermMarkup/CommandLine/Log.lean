/-
  TermMarkup.CommandLine.Log
  ──────────────────────────
  THE LOG OF A RUN.  Its records are all meant for debugging: which theme was
  loaded, which closes had nothing to close, how many lines a text was wrapped
  to.  They are told apart from the work itself, which does not depend on them.
-/
import TermMarkup.CommandLine.Usage
import TermMarkup.Layout
import TermMarkup.Theme.Load

namespace TermMarkup

/-! ## §1. Records. -/

/-- A record: the part of the program that makes it, and its message. -/
structure LogRecord where
  source : Text
  message : Text
  deriving DecidableEq, Repr

/-- The line of a record, which begins with the time at which the record was made. -/
def LogRecord.line (time : Text) (r : LogRecord) : Text :=
  time ++ " [DEBUG] ".toList ++ r.source ++ ": ".toList ++ r.message ++ ['\n']

/-! ## §2. Themes. -/

/-- What loading a theme records: the file, as soon as it has been read as an object. -/
def Theme.loadRecords (around : Surroundings) (path? : Option Text) : List LogRecord :=
  match sourcePath? path? around.themeVariable with
  | none => []
  | some path =>
    match readMembers around path with
    | .ok members =>
      [⟨"styledtext.theme".toList, "Loaded theme from ".toList ++ normalPath path ++ " (".toList
        ++ digitsOf (lastWins members).length ++ " roles)".toList⟩]
    | .error _ => []

/-- What the program records of the theme in use. -/
def Theme.useRecord (path? : Option Text) : LogRecord :=
  let given := path?.filter fun path => !path.isEmpty
  ⟨"styledtext.cli".toList,
    "Using theme from ".toList ++ given.getD "environment/defaults".toList⟩

/-! ## §3. Styles. -/

/-- The names among `names`, closed one after the other, for which nothing is open. -/
def Stack.unmatched (s : Stack) : List Text → List Text
  | [] => []
  | name :: rest =>
    let others := (s.close name).2.unmatched rest
    if (s.groupToClose? name).isNone then name :: others else others

/-- What tokens that act on a stack record, up to the first that fails. -/
def Stack.records (theme : Theme) (s : Stack) : List Token → List LogRecord
  | [] => []
  | .literal _ :: rest => s.records theme rest
  | token :: rest =>
    let own := match token with
      | .tagClose _ words => s.unmatched words
      | _ => []
    own.map (fun name => ⟨"styledtext.style".toList,
        "Ignoring unmatched close for ".toList ++ name.quoted⟩)
      ++ match s.apply theme token with
        | .ok (_, s) => s.records theme rest
        | .error _ => []

/-- What compiling a text records. -/
def Text.styleRecords (theme : Theme) (t : Text) : List LogRecord :=
  match tokens t with
  | .ok ts => Stack.empty.records theme ts
  | .error _ => []

/-! ## §4. Commands. -/

/-- What a command records of its work on a text. -/
def CommandLine.Command.records (command : Command) (theme : Theme) (width : Int) (t : Text) :
    List LogRecord :=
  match command with
  | .render => t.styleRecords theme
  | .reshape =>
    t.styleRecords theme ++ match t.wrap theme width none with
      | .ok wrapped =>
        [⟨"styledtext.reshape".toList, "Reshaped ".toList ++ digitsOf t.length
          ++ " chars to ".toList ++ digitsOf (Text.lines wrapped).length
          ++ " lines at width ".toList ++ decimalOf width⟩]
      | .error _ => []
  | .strip | .width => []

end TermMarkup
