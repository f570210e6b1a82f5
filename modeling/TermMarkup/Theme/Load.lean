/-
  TermMarkup.Theme.Load
  ─────────────────────
  THEMES FROM FILES.  A theme file is a JSON object of roles and styles.  A
  path given outright comes before the one in the environment, and without
  either the standard theme is used.
-/
import TermMarkup.Surroundings
import TermMarkup.Theme.Basic

namespace TermMarkup.Theme

/-- The environment variable that can name a theme file. -/
def variableName : Text := "STYLEDTEXT_THEME".toList

/-! ## §1. The members in a file. -/

/-- The members of the object that the text of the file `path` writes. -/
def membersOfText (reader : JsonReader) (path t : Text) : Except Fault (List (Text × Json)) :=
  match Json.read reader.levels t with
  | .ok (.object members) => .ok members
  | .ok _ => .error (.themeNotObject path)
  | .error .malformed => .error (.themeMalformed path (reader.complaint t))
  | .error (.tooLong digits) => .error (.integerTooLong digits)
  | .error .arrayTooDeep => .error .arrayTooDeep
  | .error .objectTooDeep => .error .objectTooDeep

/-- The members in a file, from what its path leads to. -/
def membersOfLookup (reader : JsonReader) (path : Text) :
    Lookup → Except Fault (List (Text × Json))
  | .missing => .error (.fileMissing path)
  | .blocked => .error (.notDirectory path)
  | .tooLong => .error (.pathTooLong path)
  | .unreadable _ words | .refused words => .error (.refusedBySystem words)
  | .found .directory => .error (.fileIsDirectory path)
  | .found (.file bytes) =>
    match Utf8.decode bytes with
    | .ok t => membersOfText reader path t
    | .error fault => .error (.notUtf8 fault)

/-- The members in the file that a path names, by the short form of the path. -/
def readMembers (around : Surroundings) (path : Text) : Except Fault (List (Text × Json)) :=
  if path.holdsNull then .error .nullCharacter
  else membersOfLookup around.reader (normalPath path) (around.look (normalPath path))

/-! ## §2. The theme to use. -/

/-- The path to load from: the given one, else the environment's unless it is empty. -/
def sourcePath? (path? environment? : Option Text) : Option Text :=
  match path?, environment? with
  | some path, _ => some path
  | none, some path => if path.isEmpty then none else some path
  | none, none => none

/-- The theme to use. -/
def load (around : Surroundings) (path? : Option Text) : Except Fault Theme :=
  match sourcePath? path? around.themeVariable with
  | some path => do ofMembers (← readMembers around path)
  | none => .ok standard

end TermMarkup.Theme
