/-
  TermMarkup.Text.Brace
  ─────────────────────
  LITERAL BRACES: a brace that is not part of a tag is written twice.
-/
import TermMarkup.Text.Basic

namespace TermMarkup.Text

/-- Doubles every brace, so that the text holds no tag. -/
def escapeBraces (t : Text) : Text := doubleEach '}' (doubleEach '{' t)

/-- Makes doubled braces single: the opening ones first, then the closing ones. -/
def unescapeBraces (t : Text) : Text := halvePairs '}' (halvePairs '{' t)

end TermMarkup.Text
