/-
  TermMarkup.Color.Spec
  ─────────────────────
  COLOR SPECIFICATIONS: the ways of writing a color.

      name        a basic color or a palette entry
      123         a palette entry by its index
      (r,g,b)     components from 0 to 255, or fractions from 0 to 1
      #rgb        hexadecimal, each digit standing for two
      #rrggbb     hexadecimal

  `on_` before one of them makes it a background.  Triples and hexadecimal
  forms may end in one newline.
-/
import TermMarkup.Color.Basic
import TermMarkup.Color.Palette
import TermMarkup.Number.Binary64
import TermMarkup.Number.Integer

namespace TermMarkup

namespace ColorSpec

/-! ## §1. Forms. -/

/-- The largest index and component. -/
def maxComponent : Nat := 255

/-- Whether the text names a color. -/
def isName (spec : Text) : Bool :=
  (BasicColor.ofName? spec).isSome || (Palette.index? spec).isSome

/-- Whether the text is all digits and writes an index of the palette.  A digit that is not decimal
makes a FAULT: it has the look of an index and no value. -/
def isIndex (spec : Text) : Except Fault Bool :=
  if !spec.isEmpty && spec.all isDigitLike then
    return decide ((← Integer.read spec) ≤ maxComponent)
  else .ok false

/-- Whether nothing but at most one newline is left. -/
def atEnd (t : Text) : Bool := t = [] || t = ['\n']

/-- A character of a triple's component. -/
def isComponentChar (c : Char) : Bool := isDecimal c || c == '.'

/-- Reads a component with the blanks around it, then the character `stop`. -/
def component? (stop : Char) (t : Text) : Option (Text × Text) :=
  let t := t.dropWhile isBlank
  let digits := t.takeWhile isComponentChar
  match (t.dropWhile isComponentChar).dropWhile isBlank with
  | c :: rest => if c = stop ∧ digits ≠ [] then some (digits, rest) else none
  | [] => none

/-- The three components of a triple. -/
def triple? : Text → Option (Text × Text × Text)
  | '(' :: t => do
    let (r, t) ← component? ',' t
    let (g, t) ← component? ',' t
    let (b, t) ← component? ')' t
    if atEnd t then some (r, g, b) else none
  | _ => none

/-- Whether the text has the form of a triple. -/
def isTriple (spec : Text) : Bool := (triple? spec).isSome

/-- Whether the text is a number sign and three or six hexadecimal digits. -/
def isHex : Text → Bool
  | '#' :: t =>
    let digits := t.takeWhile Hexadecimal.isDigit
    (digits.length = 3 || digits.length = 6) && atEnd (t.dropWhile Hexadecimal.isDigit)
  | _ => false

/-- The mark of a background. -/
def backMark : Text := "on_".toList

/-- Whether the text is a color for the foreground. -/
def isColor (spec : Text) : Except Fault Bool :=
  if isName spec then .ok true
  else return (← isIndex spec) || isTriple spec || isHex spec

/-- Whether the text, spaces aside, is a color marked as background. -/
def isBackground (spec : Text) : Except Fault Bool :=
  match Text.after? backMark (Text.removeSpaces spec) with
  | some color => isColor color
  | none => .ok false

/-! ## §2. Values. -/

/-- The number of a decimal fraction, as numerator and power of ten.  There is at most one point and
at least one digit. -/
def fraction? (digits : Text) : Option (Nat × Nat) :=
  match Text.fields '.' digits with
  | [whole] => if whole.isEmpty then none else some (number whole, 0)
  | [whole, part] =>
    if whole.isEmpty && part.isEmpty then none
    else some (number (whole ++ part), part.length)
  | _ => none
where
  number (digits : Text) : Nat := Integer.ofDigits (digits.filterMap decimalValue?)

/-- The component that a fraction stands for: its floating-point value times 255, rounded. -/
def ofFraction (spec digits : Text) : Except Fault Nat :=
  match fraction? digits with
  | none => .error (.notTriple spec)
  | some (num, places) =>
    match (Binary64.ofQuotient? num (Nat.pow 10 places)).bind (·.scale? maxComponent) with
    | some x => .ok x.nearest
    | none => .error .infiniteComponent

/-- The component that a whole number stands for. -/
def ofWhole (spec digits : Text) : Except Fault Nat :=
  match Integer.read digits with
  | .ok n => .ok n.toNat
  | .error _ => .error (.notTriple spec)

/-- The color of a triple.  One point in it makes all three components fractions. -/
def ofTriple (spec : Text) : Except Fault Color :=
  match triple? spec with
  | none => .error (.notTriple spec)
  | some (r, g, b) => do
    let fractions := [r, g, b].any fun digits => digits.contains '.'
    let value := if fractions then ofFraction spec else ofWhole spec
    let r ← value r
    let g ← value g
    let b ← value b
    if maxComponent < r ∨ maxComponent < g ∨ maxComponent < b then
      .error (.componentOutOfRange spec)
    else return .rgb r g b

/-- The color of the hexadecimal digits after the number sign.  Exactly three characters stand for
six, each written twice; a final newline counts as a character. -/
def ofHex (digits : Text) : Color :=
  let digits := if digits.length = 3 then digits.flatMap fun d => [d, d] else digits
  let value := Hexadecimal.read digits
  .rgb (value / 0x10000 % 0x100 : Nat) (value / 0x100 % 0x100 : Nat) (value % 0x100 : Nat)

/-- The color of a specification without spaces and background mark. -/
def foreground (spec : Text) : Except Fault Color :=
  match BasicColor.ofName? spec, Palette.index? spec with
  | some color, _ => .ok (.basic color)
  | none, some index => .ok (.palette index)
  | none, none => do
    if ← isIndex spec then return .palette (← Integer.read spec)
    else if isTriple spec then ofTriple spec
    else if isHex spec then return ofHex (spec.drop 1)
    else .error (.unknownColor spec)

end ColorSpec

/-- The color that a specification denotes on a ground.  Spaces do not count; a background needs its
mark. -/
def Color.ofSpec (spec : Text) (ground : Ground) : Except Fault Color :=
  let spec := Text.removeSpaces spec
  match ground with
  | .fore => ColorSpec.foreground spec
  | .back =>
    match Text.after? ColorSpec.backMark spec with
    | some color => ColorSpec.foreground color
    | none => .error (.notBackground spec)

/-- The pair of codes of the color that a specification denotes. -/
def Color.pairOfSpec (spec : Text) (ground : Ground) : Except Fault StylePair :=
  return (← ofSpec spec ground).pair ground

end TermMarkup
