/-
  TermMarkup.Color.Basic
  ──────────────────────
  COLORS in the three forms that SGR codes know, and the pair of codes that
  switches a color on and off in the foreground or the background.
-/
import TermMarkup.Fault
import TermMarkup.Sgr.Basic

namespace TermMarkup

/-! ## §1. Colors. -/

/-- The eight basic terminal colors and the terminal's own default. -/
inductive BasicColor where
  | black
  | red
  | green
  | yellow
  | blue
  | magenta
  | cyan
  | white
  | default
  deriving DecidableEq, Repr

namespace BasicColor

def all : List BasicColor := [black, red, green, yellow, blue, magenta, cyan, white, default]

/-- The place of the color in the codes of its ground. -/
def number : BasicColor → Nat
  | black => 0
  | red => 1
  | green => 2
  | yellow => 3
  | blue => 4
  | magenta => 5
  | cyan => 6
  | white => 7
  | default => 9

def name : BasicColor → Text
  | black => "black".toList
  | red => "red".toList
  | green => "green".toList
  | yellow => "yellow".toList
  | blue => "blue".toList
  | magenta => "magenta".toList
  | cyan => "cyan".toList
  | white => "white".toList
  | default => "default".toList

/-- The basic color of a name. -/
def ofName? (t : Text) : Option BasicColor := all.find? fun color => color.name = t

/-- The basic color of a name, or the fault that there is none. -/
def ofName (t : Text) : Except Fault BasicColor :=
  match ofName? t with
  | some color => .ok color
  | none => .error (.noBasicColor t)

end BasicColor

/-- A color. -/
inductive Color where
  | basic (color : BasicColor)
  /-- An entry of the 256-color palette. -/
  | palette (index : Int)
  | rgb (r g b : Int)
  deriving DecidableEq, Repr

/-! ## §2. Codes. -/

/-- Where a color is shown. -/
inductive Ground where
  | fore
  | back
  deriving DecidableEq, Repr

namespace Ground

/-- The dimension that a color of this ground sets. -/
def dimension : Ground → Dimension
  | fore => .foreground
  | back => .background

/-- The parameter of the first basic color. -/
def basicStart : Ground → Nat
  | fore => 30
  | back => 40

end Ground

/-- The code that switches a style on and the code that switches it off. -/
structure StylePair where
  opens : Text
  closes : Text
  deriving DecidableEq, Repr

/-- The parameters of the code that switches the color on. -/
def Color.params (ground : Ground) : Color → List Sgr.Param
  | basic color => [.number (ground.basicStart + color.number)]
  | palette index => [.number ground.dimension.opening, .number 5, .number index]
  | rgb r g b => [.number ground.dimension.opening, .number 2, .number r, .number g, .number b]

/-- The pair of codes for the color on a ground. -/
def Color.pair (color : Color) (ground : Ground) : StylePair :=
  ⟨Sgr.ofParams (color.params ground), ground.dimension.channel.closeCode⟩

end TermMarkup
