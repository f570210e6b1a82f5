/-
  TermMarkup.Sgr.Code
  ───────────────────
  THE SGR CODES IN A TEXT: finding, listing, removing and blotting them out.
-/
import TermMarkup.Mark

namespace TermMarkup.Text

/-- Whether the text holds a code. -/
def hasCodes (t : Text) : Bool := !(marksOf (pieces Mark.code? t)).isEmpty

/-- The codes of the text, in order. -/
def codes (t : Text) : List Text := (marksOf (pieces Mark.code? t)).map Mark.source

/-- The last code of the text, empty if it has none. -/
def lastCode (t : Text) : Text := (codes t).getLastD []

/-- The text without codes, those included that removing others brings about. -/
def removeCodes (t : Text) : Text := clearMarks Mark.code? t

/-- The filler for blotted codes. -/
def defaultFiller : Text := ['¦']

/-- Puts `filler` in place of each character of each code, so that offsets stay. -/
def blotCodes (filler : Text) (t : Text) : Text :=
  (pieces Mark.code? t).flatMap fun
    | .plain c => [c]
    | .mark m => repeated m.source.length filler

end TermMarkup.Text
