/-
  TermMarkup.Token
  ────────────────
  TOKENS: one scan cuts a text into runs of literal text and style tokens,
  where tags and SGR codes may follow each other in any order.
-/
import TermMarkup.Sgr.Effect
import TermMarkup.Tag

namespace TermMarkup

/-! ## §1. Tokens. -/

/-- A token of styled text. -/
inductive Token where
  | literal (text : Text)
  | tagOpen (source : Text) (words : List Text)
  | tagClose (source : Text) (words : List Text)
  /-- A code that switches something on, with the codes that switch it off again. -/
  | codeOpen (code closes : Text)
  | codeClose (code : Text)
  deriving DecidableEq, Repr

/-- A token as it stands in the text. -/
def Token.source : Token → Text
  | literal text => text
  | tagOpen source _ | tagClose source _ => source
  | codeOpen code _ | codeClose code => code

/-- The literal text of a token. -/
def Token.plain : Token → Text
  | literal t => t
  | _ => []

/-! ## §2. From marks to tokens. -/

/-- The token of an SGR code. -/
def Token.ofCode (code : Text) : Except Fault Token := do
  let openings := (← Effect.ofCode code).filter Effect.isOn
  if openings.isEmpty then return .codeClose code
  else return .codeOpen code (openings.flatMap Effect.closeCode)

/-- The token of a mark. -/
def Token.ofMark : Mark → Except Fault Token
  | .code params => ofCode (Sgr.code params)
  | .tag false body => .ok (.tagOpen (Mark.tag false body).source (Text.styleWords body))
  | .tag true body => .ok (.tagClose (Mark.tag true body).source (Text.styleWords body))

/-- Puts a plain character in front of tokens: into the literal that they start with, if they do. -/
def Token.consPlain (c : Char) : List Token → List Token
  | .literal t :: rest => .literal (c :: t) :: rest
  | tokens => .literal [c] :: tokens

/-- The tokens of pieces, neighbouring plain characters gathered into one literal. -/
def Token.ofPieces : List Piece → Except Fault (List Token)
  | [] => .ok []
  | .plain c :: ps => return consPlain c (← ofPieces ps)
  | .mark m :: ps => do
    let token ← ofMark m
    return token :: (← ofPieces ps)

/-- The tokens of a text that has no unterminated tag. -/
def Text.tokens (t : Text) : Except Fault (List Token) := do
  checkTags t
  Token.ofPieces (pieces Mark.any? t)

end TermMarkup
