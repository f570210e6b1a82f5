/-
  TermMarkup.Surroundings
  ───────────────────────
  WHAT A RUN FINDS AROUND IT: the way from a path to a file, the variable that
  can name a theme, and the reader of JSON that the system comes with.
-/
import TermMarkup.Fault
import TermMarkup.Files

namespace TermMarkup

/-- The reader of JSON that a system comes with. -/
structure JsonReader where
  /-- How many arrays and objects may stand inside one another. -/
  levels : Nat
  /-- What it says of a text that is no JSON. -/
  complaint : Text → Text

/-- What a run finds around it. -/
structure Surroundings where
  /-- What a path leads to. -/
  look : Text → Lookup
  /-- The value of the theme variable, if it is set. -/
  themeVariable : Option Text
  reader : JsonReader

/-- The surroundings with some files and a value of the theme variable.  No system holds a null
character in a file's name or in a variable. -/
def Surroundings.ofFiles (reader : JsonReader) (files : Files) (themeVariable : Option Text) :
    Except Fault Surroundings :=
  if (files.map (·.1) ++ themeVariable.toList).any Text.holdsNull then .error .nullCharacter
  else .ok ⟨files.look, themeVariable, reader⟩

end TermMarkup
