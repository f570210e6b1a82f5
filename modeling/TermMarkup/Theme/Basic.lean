/-
  TermMarkup.Theme.Basic
  ──────────────────────
  THEMES.  A theme gives each thematic ROLE a style: a text of style words
  between blanks.  Role names can stand in tags like style words.
-/
import TermMarkup.Fault
import TermMarkup.Json

namespace TermMarkup

/-! ## §1. Roles. -/

/-- A thematic role. -/
inductive Role where
  | text
  | emphasis
  | emphasisLight
  | code
  | string
  | number
  | info
  | warning
  | error
  | debug
  | link
  deriving DecidableEq, Repr

namespace Role

/-- All roles, in the order in which themes list them. -/
def all : List Role :=
  [text, emphasis, emphasisLight, code, string, number, info, warning, error, debug, link]

def name : Role → Text
  | text => "text".toList
  | emphasis => "emphasis".toList
  | emphasisLight => "emphasis_light".toList
  | code => "code".toList
  | string => "string".toList
  | number => "number".toList
  | info => "info".toList
  | warning => "warning".toList
  | error => "error".toList
  | debug => "debug".toList
  | link => "link".toList

/-- The role of a name. -/
def ofName? (t : Text) : Option Role := all.find? fun role => role.name = t

/-- The style of a role where a theme says nothing else. -/
def defaultStyle : Role → Text
  | text => "default".toList
  | emphasis => "blue bold".toList
  | emphasisLight => "yellow".toList
  | code => "cornflower_blue italic".toList
  | string => "#64b565".toList
  | number => "#90CAF9".toList
  | info => "#7cb0cf".toList
  | warning => "#d8d877".toList
  | error => "bold #d73a3a".toList
  | debug => "#197fcf".toList
  | link => "underline light_sky_blue3".toList

end Role

/-! ## §2. Themes. -/

/-- A theme: the style of each role. -/
structure Theme where
  style : Role → Text

namespace Theme

/-- The theme with the default style of every role. -/
def standard : Theme := ⟨Role.defaultStyle⟩

/-- The style of the role with this name, if there is one. -/
def styleFor? (theme : Theme) (name : Text) : Option Text :=
  (Role.ofName? name).map theme.style

/-- The theme with a new style for one role. -/
def set (theme : Theme) (role : Role) (style : Text) : Theme :=
  ⟨fun r => if r = role then style else theme.style r⟩

/-- The names and styles, in the order of the roles. -/
def toList (theme : Theme) : List (Text × Text) :=
  Role.all.map fun role => (role.name, theme.style role)

/-! ## §3. Themes from data. -/

/-- Gives each key its LAST value, at the place of its first occurrence. -/
def lastWins (members : List (Text × Json)) : List (Text × Json) :=
  members.foldl
    (fun kept entry =>
      if kept.any (·.1 == entry.1) then
        kept.map fun old => if old.1 == entry.1 then entry else old
      else kept ++ [entry])
    []

/-- Sets the roles of `members` in turn. -/
def setAll (theme : Theme) : List (Text × Json) → Except Fault Theme
  | [] => .ok theme
  | (key, value) :: rest =>
    match Role.ofName? key, value with
    | some role, .string style => setAll (theme.set role style) rest
    | some _, _ => .error (.styleNotText key)
    | none, _ => .error (.unknownRoles [key])

/-- The theme that the members describe on top of the standard one.  Unknown roles are reported
first, all of them in the order of their code points. -/
def ofMembers (members : List (Text × Json)) : Except Fault Theme :=
  let members := lastWins members
  let unknown := (members.map (·.1)).filter fun key => (Role.ofName? key).isNone
  if unknown.isEmpty then setAll standard members
  else .error (.unknownRoles (unknown.mergeSort Text.notAfter))

end Theme

end TermMarkup
