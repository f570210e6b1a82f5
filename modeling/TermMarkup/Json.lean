/-
  TermMarkup.Json
  ───────────────
  JSON VALUES AND THEIR READER.  Objects keep their members in the order of
  the text, repeated keys included, because what a repeated key means is for
  the user of the value to say.  Besides the standard's literals the reader
  takes `NaN`, `Infinity` and `-Infinity`.  An integer has at most as many
  digits as `Integer.maxDigits` allows, and arrays and objects stand inside
  one another at most as deep as the caller allows.
-/
import TermMarkup.Number.Integer
import TermMarkup.Number.Hexadecimal

namespace TermMarkup

/-! ## §1. Values. -/

/-- A JSON value. -/
inductive Json where
  | null
  | bool (b : Bool)
  | integer (n : Int)
  /-- A number with a fraction or an exponent, or one of the non-numbers, as it is written. -/
  | real (literal : Text)
  | string (t : Text)
  | array (items : List Json)
  | object (members : List (Text × Json))
  deriving Repr

namespace Json

/-- Why a text is no JSON value. -/
inductive Fault where
  | malformed
  /-- An integer with too many digits. -/
  | tooLong (digits : Nat)
  /-- An array inside as many arrays and objects as are allowed. -/
  | arrayTooDeep
  /-- An object inside as many arrays and objects as are allowed. -/
  | objectTooDeep
  deriving DecidableEq, Repr

/-! ## §2. Strings. -/

/-- The number that four hexadecimal digits write, and the rest of the text. -/
def hexUnit? : Text → Option (Nat × Text)
  | a :: b :: c :: d :: rest =>
    if [a, b, c, d].all Hexadecimal.isDigit then
      some (Hexadecimal.read [a, b, c, d], rest)
    else none
  | _ => none

/-- The character that a one-letter escape stands for. -/
def shortEscape? : Char → Option Char
  | '"' => some '"'
  | '\\' => some '\\'
  | '/' => some '/'
  | 'b' => some '\x08'
  | 'f' => some '\x0c'
  | 'n' => some '\n'
  | 'r' => some '\r'
  | 't' => some '\t'
  | _ => none

/-- Whether a unit is the first half of a pair. -/
def isHighHalf (unit : Nat) : Bool := 0xD800 ≤ unit && unit ≤ 0xDBFF

/-- Whether a unit is the second half of a pair. -/
def isLowHalf (unit : Nat) : Bool := 0xDC00 ≤ unit && unit ≤ 0xDFFF

/-- The character of a unit; a half without its partner is shown as the replacement character. -/
def unitChar (unit : Nat) : Char :=
  if isHighHalf unit || isLowHalf unit then '\uFFFD' else Char.ofNat unit

/-- The character of a unit escape whose digits start here. -/
def unicodeEscape? (t : Text) : Option (Char × Text) := do
  let (unit, rest) ← hexUnit? t
  match isHighHalf unit, rest with
  | true, '\\' :: 'u' :: next =>
    match hexUnit? next with
    | some (low, after) =>
      if isLowHalf low then
        return (Char.ofNat (0x10000 + (unit - 0xD800) * 0x400 + (low - 0xDC00)), after)
      else return (unitChar unit, rest)
    | none => return (unitChar unit, rest)
  | _, _ => return (unitChar unit, rest)

/-- Reads the rest of a string, after its opening quote; `fuel` bounds its characters. -/
def stringRest : (fuel : Nat) → Text → Except Json.Fault (Text × Text)
  | 0, _ => .error .malformed
  | _ + 1, [] => .error .malformed
  | _ + 1, '"' :: rest => .ok ([], rest)
  | fuel + 1, '\\' :: 'u' :: rest =>
    match unicodeEscape? rest with
    | some (c, after) => do
      let (cs, after) ← stringRest fuel after
      return (c :: cs, after)
    | none => .error .malformed
  | fuel + 1, '\\' :: e :: rest =>
    match shortEscape? e with
    | some c => do
      let (cs, after) ← stringRest fuel rest
      return (c :: cs, after)
    | none => .error .malformed
  | fuel + 1, c :: rest =>
    if c = '\\' ∨ c.toNat < 0x20 then .error .malformed
    else do
      let (cs, after) ← stringRest fuel rest
      return (c :: cs, after)

/-! ## §3. Numbers. -/

/-- The digits of a whole number: a single zero, or digits that start with another one. -/
def wholeDigits (t : Text) : Text :=
  match t with
  | '0' :: _ => ['0']
  | _ => t.takeWhile Char.isDigit

/-- The fraction at the start of a text, its point included; empty if there is none. -/
def fractionPart : Text → Text
  | '.' :: t => if t.head?.any Char.isDigit then '.' :: t.takeWhile Char.isDigit else []
  | _ => []

/-- The exponent at the start of a text, its letter included; empty if there is none. -/
def exponentPart : Text → Text
  | e :: t =>
    let sign := match t with
      | '+' :: _ => ['+']
      | '-' :: _ => ['-']
      | _ => []
    let digits := (t.drop sign.length).takeWhile Char.isDigit
    if (e = 'e' ∨ e = 'E') ∧ digits ≠ [] then e :: sign ++ digits else []
  | [] => []

/-- Reads a number. -/
def number (t : Text) : Except Json.Fault (Json × Text) :=
  let (negative, body) := match t with
    | '-' :: rest => (true, rest)
    | _ => (false, t)
  let whole := wholeDigits body
  let rest := body.drop whole.length
  let fraction := fractionPart rest
  let exponent := exponentPart (rest.drop fraction.length)
  let size := fraction.length + exponent.length
  if whole.isEmpty then .error .malformed
  else if size = 0 then
    if Integer.maxDigits < whole.length then .error (.tooLong whole.length)
    else
      let n : Int := Integer.ofDigits (whole.filterMap decimalValue?)
      .ok (.integer (if negative then -n else n), rest)
  else
    .ok (.real ((if negative then ['-'] else []) ++ whole ++ fraction ++ exponent),
      rest.drop size)

/-! ## §4. Values. -/

/-- A blank of JSON. -/
def isBlank (c : Char) : Bool := c == ' ' || c == '\t' || c == '\n' || c == '\r'

/-- The text after leading blanks. -/
def skip (t : Text) : Text := t.dropWhile isBlank

/-- The literals and the values that they write. -/
def literals : List (Text × Json) :=
  [("null".toList, .null), ("true".toList, .bool true), ("false".toList, .bool false),
   ("NaN".toList, .real "NaN".toList), ("Infinity".toList, .real "Infinity".toList),
   ("-Infinity".toList, .real "-Infinity".toList)]

/-- Reads a literal or a number. -/
def scalar (t : Text) : Except Json.Fault (Json × Text) :=
  match literals.find? fun entry => entry.1.isPrefixOf t with
  | some (word, value) => .ok (value, t.drop word.length)
  | none => number t

mutual

/-- Reads a value that starts here; `fuel` bounds the steps, and `levels` the arrays and objects
that stand inside one another.  One too deep is refused at its opening bracket, whatever follows. -/
def value : (fuel levels : Nat) → Text → Except Json.Fault (Json × Text)
  | 0, _, _ => .error .malformed
  | fuel + 1, levels, t =>
    match t, levels with
    | '"' :: rest, _ => do
      let (s, rest) ← stringRest (rest.length + 1) rest
      return (.string s, rest)
    | '[' :: _, 0 => .error .arrayTooDeep
    | '[' :: rest, levels + 1 =>
      match skip rest with
      | ']' :: rest => .ok (.array [], rest)
      | rest => do
        let (items, rest) ← itemsFrom fuel levels rest
        return (.array items, rest)
    | '\x7b' :: _, 0 => .error .objectTooDeep
    | '\x7b' :: rest, levels + 1 =>
      match skip rest with
      | '\x7d' :: rest => .ok (.object [], rest)
      | rest => do
        let (members, rest) ← membersFrom fuel levels rest
        return (.object members, rest)
    | _, _ => scalar t

/-- Reads the items of an array from one of them on, with the closing bracket. -/
def itemsFrom : (fuel levels : Nat) → Text → Except Json.Fault (List Json × Text)
  | 0, _, _ => .error .malformed
  | fuel + 1, levels, t => do
    let (item, rest) ← value fuel levels t
    match skip rest with
    | ']' :: rest => return ([item], rest)
    | ',' :: rest =>
      let (items, rest) ← itemsFrom fuel levels (skip rest)
      return (item :: items, rest)
    | _ => .error .malformed

/-- Reads the members of an object from one of them on, with the closing brace. -/
def membersFrom : (fuel levels : Nat) → Text → Except Json.Fault (List (Text × Json) × Text)
  | 0, _, _ => .error .malformed
  | fuel + 1, levels, t =>
    match t with
    | '"' :: rest => do
      let (key, rest) ← stringRest (rest.length + 1) rest
      match skip rest with
      | ':' :: rest =>
        let (item, rest) ← value fuel levels (skip rest)
        match skip rest with
        | '\x7d' :: rest => return ([(key, item)], rest)
        | ',' :: rest =>
          let (members, rest) ← membersFrom fuel levels (skip rest)
          return ((key, item) :: members, rest)
        | _ => .error .malformed
      | _ => .error .malformed
    | _ => .error .malformed

end

/-- The value that a whole text writes, with at most `levels` arrays and objects inside one
another.  Each step of the reader takes a character, so twice the length is fuel enough. -/
def read (levels : Nat) (t : Text) : Except Json.Fault Json := do
  let (v, rest) ← value (2 * t.length + 1) levels (skip t)
  if (skip rest).isEmpty then return v else .error .malformed

end Json

end TermMarkup
