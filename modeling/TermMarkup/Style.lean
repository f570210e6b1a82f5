/-
  TermMarkup.Style
  ────────────────
  THE MEANING OF A STYLE WORD: an attribute, a color, or a theme role, which
  stands for the words of its style, ONE level deep.  Each word comes to pairs
  of codes, one that opens and one that closes.
-/
import TermMarkup.Color.Spec
import TermMarkup.Mark
import TermMarkup.Theme.Basic

namespace TermMarkup

namespace Style

/-- The attribute words and the dimensions that they switch on. -/
def attributes : List (Text × Dimension) :=
  [("bold".toList, .bold), ("dim".toList, .dim), ("italic".toList, .italic),
   ("underline".toList, .underline), ("blink".toList, .blink), ("inverse".toList, .inverse),
   ("reverse".toList, .inverse), ("hidden".toList, .hidden), ("striked".toList, .strike),
   ("strikethrough".toList, .strike)]

/-- The pair of an attribute dimension. -/
def pairOf (d : Dimension) : StylePair := ⟨Sgr.code (digitsOf d.opening), d.channel.closeCode⟩

/-- The pair of an attribute word. -/
def attribute? (word : Text) : Option StylePair :=
  (attributes.find? fun entry => entry.1 = word).map fun entry => pairOf entry.2

/-- The pair of a color word, background colors before all others; `none` if the word has not the
form of a color. -/
def color? (word : Text) : Except Fault (Option StylePair) := do
  if ← ColorSpec.isBackground word then return some (← Color.pairOfSpec word .back)
  else if ← ColorSpec.isColor word then return some (← Color.pairOfSpec word .fore)
  else return none

/-- The pair of a word that is no role, for a tag that messages name.  A color that cannot be read
is a fault of the tag; any other fault stays as it is. -/
def resolvePlain (tag word : Text) : Except Fault StylePair :=
  match attribute? word with
  | some pair => .ok pair
  | none =>
    match color? word with
    | .ok (some pair) => .ok pair
    | .ok none => .error (.unknownStyle word tag)
    | .error cause =>
      .error (if cause.kind = .value then .unusableColor word tag cause else cause)

/-- The pairs of a word.  Where no tag is given, messages show the word in braces. -/
def resolve (theme : Theme) (tag word : Text) : Except Fault (List StylePair) :=
  let tag := if tag.isEmpty then (Mark.tag false word).source else tag
  match theme.styleFor? word with
  | some style => (Text.words style).mapM (resolvePlain tag)
  | none => return [← resolvePlain tag word]

end Style

end TermMarkup
