/-
  TermMarkup.Text.Blank
  ─────────────────────
  BLANKS (white space) and what is done with them: trimming, words, closing up
  the blanks around a punctuation mark.
-/
import TermMarkup.Text.Basic
import TermMarkup.Text.CodeRange

namespace TermMarkup

/-! ## §1. The class. -/

/-- The white space characters. -/
def blankRanges : CodeRanges :=
  [(0x9, 0xD), (0x1C, 0x20), (0x85, 0x85), (0xA0, 0xA0), (0x1680, 0x1680), (0x2000, 0x200A),
   (0x2028, 0x2029), (0x202F, 0x202F), (0x205F, 0x205F), (0x3000, 0x3000)]

/-- A white space character. -/
def isBlank (c : Char) : Bool := blankRanges.contains c.toNat

namespace Text

/-! ## §2. Trimming and words. -/

/-- The text without the marked characters at its end. -/
def trimEndBy (p : Char → Bool) (t : Text) : Text := (t.reverse.dropWhile p).reverse

/-- The text without the blanks at its ends. -/
def trim (t : Text) : Text := trimEndBy isBlank (t.dropWhile isBlank)

/-- The words of a text: its fields between blanks, EMPTY fields left out. -/
def words (t : Text) : List Text := (fieldsBy isBlank t).filter fun w => !w.isEmpty

/-! ## §3. Closing up. -/

/-- Drops the blanks that stand directly before a character marked by `p`. -/
def closeUpBefore (p : Char → Bool) : Text → Text
  | [] => []
  | c :: cs =>
    match closeUpBefore p cs with
    | [] => [c]
    | d :: ds => if isBlank c && p d then d :: ds else c :: d :: ds

/-- Drops the blanks that stand directly after a character marked by `p`. -/
def closeUpAfter (p : Char → Bool) (t : Text) : Text := (closeUpBefore p t.reverse).reverse

/-- Drops the blanks around commas. -/
def closeUpCommas (t : Text) : Text := closeUpBefore (· == ',') (closeUpAfter (· == ',') t)

/-- Drops the blanks just inside round brackets. -/
def closeUpParens (t : Text) : Text := closeUpBefore (· == ')') (closeUpAfter (· == '(') t)

/-- Drops every SPACE; other blanks stay. -/
def removeSpaces (t : Text) : Text := removeAll (· == ' ') t

/-- Drops the round brackets and keeps what they hold. -/
def removeParens (t : Text) : Text := removeAll (fun c => c == '(' || c == ')') t

end Text

end TermMarkup
