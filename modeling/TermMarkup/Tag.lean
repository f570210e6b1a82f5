/-
  TermMarkup.Tag
  ──────────────
  BRACKET TAGS: `{bold red}` opens styles, `{/bold red}` closes them, and a
  doubled brace is a literal one.  A tag that another opening brace or the end
  of the text cuts off is UNTERMINATED and makes the markup faulty.
-/
import TermMarkup.Mark
import TermMarkup.Fault
import TermMarkup.Text.Blank

namespace TermMarkup

/-! ## §1. Tags and their offsets. -/

/-- A tag in a text, with the offsets of its start and end. -/
structure Tag where
  start : Nat
  stop : Nat
  closes : Bool
  body : Text
  deriving DecidableEq, Repr

/-- The tag as it stands in the text. -/
def Tag.source (tag : Tag) : Text := (Mark.tag tag.closes tag.body).source

/-- The tags among pieces of which the first stands at `offset`. -/
def tagsFrom : (offset : Nat) → List Piece → List Tag
  | _, [] => []
  | offset, p :: ps =>
    let stop := offset + p.source.length
    match p with
    | .mark (.tag closes body) => ⟨offset, stop, closes, body⟩ :: tagsFrom stop ps
    | _ => tagsFrom stop ps

namespace Text

/-- The tags of the text, in order. -/
def tags (t : Text) : List Tag := tagsFrom 0 (pieces Mark.tag? t)

/-- The style words of a tag's body.  Blanks around commas and inside round brackets separate no
words, so that a color triple is one word. -/
def styleWords (body : Text) : List Text := words (closeUpParens (closeUpCommas (trim body)))

/-! ## §2. Unterminated tags. -/

/-- Whether a tag is cut off where its body ends: by an opening brace, by the end of the text, or by
a newline that ends the text. -/
def cutsOff (after : Text) : Bool := after = [] || after = ['\n'] || after.head? = some '{'

/-- The first unterminated tag from here on. -/
def unterminatedFrom? : (afterBrace : Bool) → Text → Option Text
  | _, [] => none
  | afterBrace, c :: cs =>
    match TagHead.read? afterBrace (c :: cs) with
    | some h => if cutsOff h.after then some h.source else unterminatedFrom? (c == '{') cs
    | none => unterminatedFrom? (c == '{') cs

/-- Accepts the text if it has no unterminated tag. -/
def checkTags (t : Text) : Except Fault Unit :=
  match unterminatedFrom? false t with
  | some source => .error (.unterminatedTag source)
  | none => .ok ()

/-! ## §3. Removing tags. -/

/-- The text without tags, unterminated ones left alone. -/
def stripTags (t : Text) : Text := clearMarks Mark.tag? t

/-- The text without tags, provided that it has no unterminated tag before and after. -/
def removeTags (t : Text) : Except Fault Text := do
  checkTags t
  let stripped := stripTags t
  checkTags stripped
  return stripped

/-! ## §4. Matched tags. -/

/-- Whether a closing tag names a word of `opened` or of an earlier opening tag. -/
def closesAny (opened : List Text) : List Tag → Bool
  | [] => false
  | tag :: rest =>
    let ws := styleWords tag.body
    if tag.closes then ws.any opened.contains || closesAny opened rest
    else closesAny (opened ++ ws) rest

/-- Whether the text holds an opening tag and, after it, a closing tag with a common word. -/
def hasMarkup (t : Text) : Bool := closesAny [] t.tags

end Text

end TermMarkup
