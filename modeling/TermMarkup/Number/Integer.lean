/-
  TermMarkup.Number.Integer
  ─────────────────────────
  READING AN INTEGER: blanks around it, one sign, decimal digits of any script,
  and single underscores between digits.  A digit run of more than 4300 digits
  is refused, and that refusal comes BEFORE any complaint about what follows
  the run.
-/
import TermMarkup.Fault
import TermMarkup.Text.Blank
import TermMarkup.Text.Digit

namespace TermMarkup.Integer

/-- The longest run of digits that is read. -/
def maxDigits : Nat := 4300

/-- The blanks allowed around an integer: all but the four separators U+001C to U+001F. -/
def isMargin (c : Char) : Bool := isBlank c && !(0x1C ≤ c.toNat && c.toNat ≤ 0x1F)

/-- A character of a digit run. -/
def isRunChar (c : Char) : Bool := c == '_' || isDecimal c

/-- Whether underscores stand only between digits, and there is a digit at all. -/
def wellSpaced (run : Text) : Bool := (Text.fields '_' run).all fun group => !group.isEmpty

/-- The number that decimal digits write. -/
def ofDigits (digits : List Nat) : Nat := digits.foldl (fun n d => 10 * n + d) 0

/-- Takes off a sign; the flag says whether it is a minus. -/
def unsigned : Text → Bool × Text
  | '-' :: t => (true, t)
  | '+' :: t => (false, t)
  | t => (false, t)

/-- The integer that `literal` writes. -/
def read (literal : Text) : Except Fault Int :=
  let (negative, body) := unsigned (literal.dropWhile isMargin)
  let run := body.takeWhile isRunChar
  let digits := run.filterMap decimalValue?
  if !wellSpaced run then .error (.notInteger literal)
  else if maxDigits < digits.length then .error (.integerTooLong digits.length)
  else if (body.dropWhile isRunChar).all isMargin then
    let n : Int := ofDigits digits
    .ok (if negative then -n else n)
  else .error (.notInteger literal)

end TermMarkup.Integer
