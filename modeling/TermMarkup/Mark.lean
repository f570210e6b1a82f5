/-
  TermMarkup.Mark
  ───────────────
  MARKS IN TEXT: SGR codes and bracket tags, and the left-to-right scan that
  finds them.  A tag's opening brace must not follow another opening brace, so
  the scan carries along whether the character before is one.

  The scan cuts a text into PIECES, and everything else about marks (removing
  them, listing them, their offsets) is a function of the pieces.
-/
import TermMarkup.Sgr.Basic

namespace TermMarkup

/-! ## §1. Marks and pieces. -/

/-- A style mark. -/
inductive Mark where
  /-- An SGR code, by its parameter text. -/
  | code (params : Text)
  /-- A bracket tag, by its body. -/
  | tag (closes : Bool) (body : Text)
  deriving DecidableEq, Repr

/-- The opening brace of a tag, with the slash of a closing one. -/
def tagStart (closes : Bool) : Text := if closes then ['{', '/'] else ['{']

/-- A mark as it stands in the text. -/
def Mark.source : Mark → Text
  | code params => Sgr.code params
  | tag closes body => tagStart closes ++ body ++ ['}']

/-- A piece of a scanned text. -/
inductive Piece where
  | plain (c : Char)
  | mark (m : Mark)
  deriving DecidableEq, Repr

/-- A piece as it stands in the text. -/
def Piece.source : Piece → Text
  | plain c => [c]
  | mark m => m.source

/-! ## §2. Recognising a mark. -/

/-- What recognises a mark at the start of a text; the flag says whether an opening brace stands
directly before. -/
abbrev Recognizer := (afterBrace : Bool) → Text → Option Mark

/-- A character of a code's parameters. -/
def isParamChar (c : Char) : Bool := c.isDigit || c == ';'

/-- Recognises an SGR code. -/
def Mark.code? : Recognizer
  | _, '\x1b' :: '[' :: rest =>
    if (rest.dropWhile isParamChar).head? = some 'm' then
      some (.code (rest.takeWhile isParamChar))
    else none
  | _, _ => none

/-- A character that can start a tag's body. -/
def isTagStart (c : Char) : Bool := c.isAlphanum || ['_', '.', ',', '(', ')', '#'].contains c

/-- A character of a tag's body: those that can start it, and the space. -/
def isTagChar (c : Char) : Bool := isTagStart c || c == ' '

/-- A tag up to the end of its longest body, and the text after that. -/
structure TagHead where
  closes : Bool
  body : Text
  after : Text

/-- The head of a tag whose body starts here. -/
def TagHead.ofBody? (closes : Bool) (t : Text) : Option TagHead :=
  if t.head?.any isTagStart then some ⟨closes, t.takeWhile isTagChar, t.dropWhile isTagChar⟩
  else none

/-- The head of a tag at the start of a text. -/
def TagHead.read? (afterBrace : Bool) (t : Text) : Option TagHead :=
  if afterBrace then none
  else match t with
    | '{' :: '/' :: rest => ofBody? true rest
    | '{' :: rest => ofBody? false rest
    | _ => none

/-- The head as it stands in the text. -/
def TagHead.source (h : TagHead) : Text := tagStart h.closes ++ h.body

/-- Recognises a bracket tag: a head that a closing brace follows. -/
def Mark.tag? : Recognizer := fun afterBrace t =>
  match TagHead.read? afterBrace t with
  | some h => if h.after.head? = some '}' then some (.tag h.closes h.body) else none
  | none => none

/-- Recognises a mark of either kind. -/
def Mark.any? : Recognizer := fun afterBrace t => Mark.code? afterBrace t <|> Mark.tag? afterBrace t

/-! ## §3. The scan. -/

/-- Cuts a text into pieces: at each place a mark if there is one, else one plain character. -/
def scan (read : Recognizer) (afterBrace : Bool) : Text → List Piece
  | [] => []
  | c :: cs =>
    match read afterBrace (c :: cs) with
    | some m => .mark m :: scan read false (cs.drop (m.source.length - 1))
    | none => .plain c :: scan read (c == '{') cs
termination_by t => t.length
decreasing_by all_goals simp only [List.length_cons, List.length_drop]; omega

/-- The pieces of a whole text. -/
def pieces (read : Recognizer) (t : Text) : List Piece := scan read false t

/-- The marks among pieces. -/
def marksOf (ps : List Piece) : List Mark :=
  ps.filterMap fun
    | .mark m => some m
    | .plain _ => none

/-- The plain characters among pieces. -/
def plainOf (ps : List Piece) : Text :=
  ps.filterMap fun
    | .plain c => some c
    | .mark _ => none

/-! ## §4. Removing marks. -/

/-- The text without the marks of one scan. -/
def dropMarks (read : Recognizer) (t : Text) : Text := plainOf (pieces read t)

/-- The text without marks.  Removing one can join the text around it into a new one, so the scan
is repeated UNTIL it finds none. -/
def clearMarks (read : Recognizer) (t : Text) : Text :=
  let rest := dropMarks read t
  if rest.length < t.length then clearMarks read rest else t
termination_by t.length

end TermMarkup
