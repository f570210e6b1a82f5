/-
  TermMarkup.Text.Quoted
  ──────────────────────
  THE QUOTED FORM OF A TEXT, as messages show it: between single quotes, or
  between double quotes if the text holds a single quote and no double one,
  with everything that is not printable written as an escape.
-/
import TermMarkup.Text.Unprintable
import TermMarkup.Number.Hexadecimal

namespace TermMarkup.Text

/-- The single quotation mark. -/
def singleQuote : Char := '\x27'

/-- The double quotation mark. -/
def doubleQuote : Char := '\x22'

/-- The form of one character between the quotation marks `mark`. -/
def quotedChar (mark c : Char) : Text :=
  if c = mark ∨ c = '\\' then ['\\', c]
  else if c = '\n' then ['\\', 'n']
  else if c = '\r' then ['\\', 'r']
  else if c = '\t' then ['\\', 't']
  else if isPrintable c then [c]
  else if c.toNat < 0x100 then '\\' :: 'x' :: Hexadecimal.write 2 c.toNat
  else if c.toNat < 0x10000 then '\\' :: 'u' :: Hexadecimal.write 4 c.toNat
  else '\\' :: 'U' :: Hexadecimal.write 8 c.toNat

/-- The quotation mark that suits a text. -/
def quoteMark (t : Text) : Char :=
  if t.contains singleQuote && !t.contains doubleQuote then doubleQuote else singleQuote

/-- The quoted form of a text. -/
def quoted (t : Text) : Text :=
  let mark := quoteMark t
  mark :: t.flatMap (quotedChar mark) ++ [mark]

end TermMarkup.Text
