/-
  TermMarkup.Sgr.Basic
  ────────────────────
  SGR CODES, the escape sequences that switch styles: `ESC [ params m`, with
  parameters separated by semicolons.  A style has a DIMENSION (bold, dim,
  foreground, …); each dimension is switched off through a CHANNEL, and bold
  and dim share one.
-/
import TermMarkup.Text.Basic

namespace TermMarkup

/-! ## §1. Codes. -/

namespace Sgr

/-- The escape character. -/
def escape : Char := '\x1b'

/-- The code whose parameters are written `params`. -/
def code (params : Text) : Text := escape :: '[' :: (params ++ ['m'])

/-- A parameter: a number, or text that is kept as it is written. -/
inductive Param where
  | number (n : Int)
  | verbatim (t : Text)

/-- A parameter as it stands in a code. -/
def Param.text : Param → Text
  | number n => decimalOf n
  | verbatim t => t

/-- The parameter part of a code. -/
def paramText (params : List Param) : Text := Text.join [';'] (params.map Param.text)

/-- The code with the given parameters. -/
def ofParams (params : List Param) : Text := code (paramText params)

/-- The code that switches everything off. -/
def reset : Text := code ['0']

end Sgr

/-! ## §2. Channels and dimensions. -/

/-- What one closing code switches off. -/
inductive Channel where
  | intensity
  | italic
  | underline
  | blink
  | inverse
  | hidden
  | strike
  | foreground
  | background
  deriving DecidableEq, Repr

namespace Channel

/-- All channels, by their closing parameter. -/
def all : List Channel :=
  [intensity, italic, underline, blink, inverse, hidden, strike, foreground, background]

/-- The parameter that switches the channel off. -/
def closing : Channel → Nat
  | intensity => 22
  | italic => 23
  | underline => 24
  | blink => 25
  | inverse => 27
  | hidden => 28
  | strike => 29
  | foreground => 39
  | background => 49

/-- The code that switches the channel off. -/
def closeCode (c : Channel) : Text := Sgr.code (digitsOf c.closing)

def name : Channel → Text
  | intensity => "intensity".toList
  | italic => "italic".toList
  | underline => "underline".toList
  | blink => "blink".toList
  | inverse => "inverse".toList
  | hidden => "hidden".toList
  | strike => "strike".toList
  | foreground => "fg".toList
  | background => "bg".toList

end Channel

/-- What a style sets. -/
inductive Dimension where
  | bold
  | dim
  | italic
  | underline
  | blink
  | inverse
  | hidden
  | strike
  | foreground
  | background
  deriving DecidableEq, Repr

namespace Dimension

/-- The dimensions that are on or off, without a value. -/
def switches : List Dimension := [bold, dim, italic, underline, blink, inverse, hidden, strike]

/-- The channel that switches the dimension off. -/
def channel : Dimension → Channel
  | bold | dim => .intensity
  | italic => .italic
  | underline => .underline
  | blink => .blink
  | inverse => .inverse
  | hidden => .hidden
  | strike => .strike
  | foreground => .foreground
  | background => .background

/-- The parameter that switches the dimension on; for a color, the one that starts a palette or
RGB color. -/
def opening : Dimension → Nat
  | bold => 1
  | dim => 2
  | italic => 3
  | underline => 4
  | blink => 5
  | inverse => 7
  | hidden => 8
  | strike => 9
  | foreground => 38
  | background => 48

def name : Dimension → Text
  | bold => "bold".toList
  | dim => "dim".toList
  | italic => Channel.italic.name
  | underline => Channel.underline.name
  | blink => Channel.blink.name
  | inverse => Channel.inverse.name
  | hidden => Channel.hidden.name
  | strike => Channel.strike.name
  | foreground => Channel.foreground.name
  | background => Channel.background.name

end Dimension

end TermMarkup
