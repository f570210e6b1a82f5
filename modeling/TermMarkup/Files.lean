/-
  TermMarkup.Files
  ────────────────
  A SMALL FILE SYSTEM as a value, and the way of a path through it.  Names are
  relative to the working directory.  Where that stands is not known, so above
  it there are only directories with nothing in them; from the root there is
  what every system has.
-/
import TermMarkup.Utf8

namespace TermMarkup

/-! ## §1. Files and paths. -/

/-- What a name stands for. -/
inductive FileEntry where
  | file (bytes : Bytes)
  | directory
  deriving DecidableEq, Repr

/-- The files and directories below the working directory, by their names. -/
abbrev Files := List (Text × FileEntry)

/-- What looking up a path finds. -/
inductive Lookup where
  | found (entry : FileEntry)
  | missing
  /-- A file stands where the path needs a directory. -/
  | blocked
  /-- The path, or a name on its way, has more bytes than the system takes. -/
  | tooLong
  /-- A file stands there, but to read it ends in an error, in the system's words; `permitted` says
  whether reading it is permitted. -/
  | unreadable (permitted : Bool) (words : Text)
  /-- The way there ends in some other error, in the system's words. -/
  | refused (words : Text)
  deriving DecidableEq, Repr

/-- The names in a path; empty ones and single dots lead nowhere. -/
def pathNames (path : Text) : List Text :=
  (Text.fields '/' path).filter fun name => name ≠ [] ∧ name ≠ ['.']

/-- The root at the start of a path: none, one slash, or exactly two. -/
def pathRoot (path : Text) : Text :=
  match (path.takeWhile (· == '/')).length with
  | 0 => []
  | 2 => ['/', '/']
  | _ => ['/']

/-- The short form of a path: no empty names, no single dots, a dot for the empty path. -/
def normalPath (path : Text) : Text :=
  let short := pathRoot path ++ Text.join ['/'] (pathNames path)
  if short.isEmpty then ['.'] else short

/-- How many bytes a name in a path may have. -/
def maxNameBytes : Nat := 255

/-- How many bytes a path may have. -/
def maxPathBytes : Nat := 4095

/-- Whether a text holds the null character, which no path and no setting may. -/
def Text.holdsNull (t : Text) : Bool := t.contains '\x00'

/-! ## §2. Looking up. -/

namespace Files

/-- What the names lead to, taken together.  A name that others lie below is a directory. -/
def entry? (files : Files) (names : List Text) : Option FileEntry :=
  let path := Text.join ['/'] names
  if names.isEmpty then some .directory
  else match files.find? fun e => pathNames e.1 = pathNames path with
    | some e => some e.2
    | none =>
      if files.any fun e => (pathNames path).isPrefixOf (pathNames e.1) then some .directory
      else none

/-- What every system has, by names from the root. -/
def system : Files := [("dev/null".toList, .file []), ("tmp".toList, .directory)]

/-- Follows the names of a path from the directory `here`, where two dots in the first directory of
all lead to `top`; `none` is a directory of which only the way up is known. -/
def walk (files : Files) (top : Option (List Text)) :
    (here : Option (List Text)) → List Text → Lookup
  | none, [] => .found .directory
  | none, name :: rest =>
    if maxNameBytes < (Utf8.encode name).length then .tooLong
    else if name = ['.', '.'] then walk files top none rest
    else .missing
  | some here, [] =>
    match files.entry? here with
    | some e => .found e
    | none => .missing
  | some here, name :: rest =>
    match files.entry? here with
    | some .directory =>
      if maxNameBytes < (Utf8.encode name).length then .tooLong
      else if name = ['.', '.'] then
        walk files top (if here.isEmpty then top else some here.dropLast) rest
      else walk files top (some (here ++ [name])) rest
    | some (.file _) => .blocked
    | none => .missing

/-- What a path leads to.  The empty path leads nowhere, and a final slash needs a directory. -/
def look (files : Files) (path : Text) : Lookup :=
  let needsDirectory := path.getLast? = some '/' ∨ (Text.fields '/' path).getLast? = some ['.']
  let found :=
    if path.isEmpty then .missing
    else if maxPathBytes < (Utf8.encode path).length then .tooLong
    else if pathRoot path = [] then walk files none (some []) (pathNames path)
    else walk system (some []) (some []) (pathNames path)
  match found with
  | .found (.file bytes) => if needsDirectory then .blocked else .found (.file bytes)
  | other => other

end Files

end TermMarkup
