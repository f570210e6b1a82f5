/-
  TermMarkup.Run
  ──────────────
  COMPILED TEXT.  The style tokens of a text act on a stack once, in order; each
  becomes a RUN that holds the codes to write and the styles that are open
  after it.  Everything that can fail has failed by then: writing runs out, or
  laying them out in lines, always succeeds.
-/
import TermMarkup.Stack

namespace TermMarkup

/-! ## §1. Runs. -/

/-- A piece of compiled text. -/
inductive Run where
  | text (t : Text)
  | style (codes : Text) (active : List Entry)
  deriving DecidableEq, Repr

namespace Run

/-- What a run writes. -/
def written : Run → Text
  | text t => t
  | style codes _ => codes

/-- The literal text of a run. -/
def literal : Run → Text
  | text t => t
  | style _ _ => []

/-- The open styles after a run, from those before it. -/
def after (active : List Entry) : Run → List Entry
  | text _ => active
  | style _ active => active

/-- Compiles tokens from a stack on. -/
def ofTokens (theme : Theme) (s : Stack) : List Token → Except Fault (List Run)
  | [] => .ok []
  | .literal t :: rest => return .text t :: (← ofTokens theme s rest)
  | token :: rest => do
    let (codes, s) ← s.apply theme token
    return .style codes s.entries :: (← ofTokens theme s rest)

end Run

/-! ## §2. Texts. -/

namespace Text

/-- The runs of a text. -/
def runs (theme : Theme) (t : Text) : Except Fault (List Run) := do
  Run.ofTokens theme Stack.empty (← tokens t)

/-- Ends the open styles: their closes and a reset, nothing if none is open. -/
def ending (active : List Entry) : Text :=
  if active.isEmpty then [] else closings active ++ Sgr.reset

/-- The text with its markup compiled to codes; what is still open at the end is closed. -/
def render (theme : Theme) (t : Text) : Except Fault Text := do
  let rs ← runs theme t
  return rs.flatMap Run.written ++ ending (rs.foldl Run.after [])

end Text

end TermMarkup
