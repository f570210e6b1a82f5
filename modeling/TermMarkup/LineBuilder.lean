/-
  TermMarkup.LineBuilder
  ──────────────────────
  WORD WRAP TOKEN BY TOKEN.  A builder takes the words, blanks and newlines of a
  text as they come.  It holds the finished lines, the line that it is at, what
  waits for the next word, and the stack.  A style token acts on the stack no
  sooner than it is EMITTED, and that can fail: inside a word, among the waiting
  tokens when they are committed, when their blanks are dropped, or when they end
  a line.

  Two more steps ask for something that could be missing: a dense word is to have
  some text, and that text a first cluster.

  `Text.wrap` compiles a text first and lays it out then; both come to the same.
-/
import TermMarkup.Layout

namespace TermMarkup

/-! ## §1. Units of tokens. -/

/-- Whether a token is literal text. -/
def Token.isLiteral : Token → Bool
  | literal _ => true
  | _ => false

/-- The columns of the text of several tokens. -/
def tokensWidth (parts : List Token) : Nat := parts.foldr (fun tok n => Text.width tok.plain + n) 0

/-- What a builder takes. -/
inductive TokenUnit where
  /-- Text without blanks, with the style tokens inside it and directly after it. -/
  | word (parts : List Token)
  | blank (t : Text)
  | newline
  deriving DecidableEq, Repr

namespace TokenUnit

/-- Ends the word that is being gathered. -/
def flush (word : List Token) (rest : List TokenUnit) : List TokenUnit :=
  if word.isEmpty then rest else .word word :: rest

/-- Adds chunks to the word that is being gathered; gives the finished units and the word that is
still open. -/
def ofChunks (word : List Token) : List Chunk → List TokenUnit × List Token
  | [] => ([], word)
  | .newline :: rest => (flush word (.newline :: (ofChunks [] rest).1), (ofChunks [] rest).2)
  | .blank t :: rest => (flush word (.blank t :: (ofChunks [] rest).1), (ofChunks [] rest).2)
  | .ink t :: rest => ofChunks (word ++ [.literal t]) rest

/-- The units of tokens, after the parts of an open word.  A style token joins the word before it,
or the next one where blanks stand between. -/
def ofTokens (word : List Token) : List Token → List TokenUnit
  | [] => flush word []
  | .literal t :: rest =>
    (ofChunks word t.chunks).1 ++ ofTokens (ofChunks word t.chunks).2 rest
  | token :: rest => ofTokens (word ++ [token]) rest

end TokenUnit

/-! ## §2. Builders. -/

/-- The state of a builder. -/
structure Builder where
  /-- The finished lines. -/
  lines : List Text
  /-- The line that is being built. -/
  line : Text
  /-- The columns of that line which hold emitted text. -/
  column : Nat
  /-- Blanks and style tokens since the last word of the line. -/
  pending : List Token
  /-- The columns of the waiting blanks. -/
  pendingWidth : Nat
  stack : Stack

/-- Why a builder stops. -/
inductive BuildFault where
  /-- A fault of the text: no tokens, or a token that cannot be applied. -/
  | fault (fault : Fault)
  /-- A dense word has no text. -/
  | noText
  /-- The first text of a dense word has no cluster. -/
  | noCluster
  deriving DecidableEq, Repr

/-- A step of a builder. -/
abbrev Build := Builder → Except BuildFault Builder

namespace Builder

/-- Nothing built. -/
def start : Builder := ⟨[], [], 0, [], 0, Stack.empty⟩

/-- The steps for the members of a list, in order. -/
def each (step : α → Build) : List α → Build
  | [], b => .ok b
  | x :: xs, b => do each step xs (← step x b)

/-! ## §3. Emitting. -/

/-- Emits text. -/
def emitText (t : Text) (b : Builder) : Builder :=
  { b with line := b.line ++ t, column := b.column + Text.width t }

/-- Emits a style token: it acts on the stack, and its codes are written. -/
def emitStyle (theme : Theme) (token : Token) : Build := fun b =>
  match b.stack.apply theme token with
  | .ok (codes, s) => .ok { b with line := b.line ++ codes, stack := s }
  | .error fault => .error (.fault fault)

/-- Emits a token: a style token acts on the stack, and with text something is done `onText`. -/
def emitBy (theme : Theme) (onText : Text → Build) : Token → Build
  | .literal t => onText t
  | token => emitStyle theme token

/-- Keeps text. -/
def keepText (t : Text) : Build := fun b => .ok (b.emitText t)

/-- Drops text. -/
def dropText (_ : Text) : Build := .ok

/-- Keeps blanks at the end of a line as far as they fit. -/
def keepFitting (m : Measure) (t : Text) : Build := fun b =>
  .ok (b.emitText (Step.fitting m b.column t))

/-- Emits what waits; then nothing waits. -/
def emitPending (theme : Theme) (onText : Text → Build) : Build := fun b => do
  let b ← each (emitBy theme onText) b.pending b
  return { b with pending := [], pendingWidth := 0 }

/-! ## §4. Lines. -/

/-- Whether `extra` more columns fit in the line. -/
def fits (m : Measure) (extra : Nat) (b : Builder) : Bool := (b.column + extra : Int) ≤ m.width

/-- What ends a line: the closes of the open styles and a reset, nothing if none is open, unless it
is `forced`. -/
def lineEnd (forced : Bool) (b : Builder) : Text :=
  if forced || !b.stack.entries.isEmpty then closings b.stack.entries ++ Sgr.reset else []

/-- Finishes the line and opens the styles again on the next one. -/
def finishLine (forced : Bool) (b : Builder) : Builder :=
  { b with
    lines := b.lines ++ [b.line ++ b.lineEnd forced]
    line := openings b.stack.entries
    column := 0 }

/-- Wraps: the waiting blanks are dropped, and a new line begins. -/
def breakLine (theme : Theme) : Build := fun b => do
  return (← emitPending theme dropText b).finishLine true

/-- Ends a line of the text. -/
def endLine (theme : Theme) (m : Measure) : Build := fun b => do
  return (← emitPending theme (keepFitting m) b).finishLine false

/-- Makes room for `next` columns: commits what waits if all fits, else wraps; at the start of a
line the waiting blanks just go. -/
def placeSeparator (theme : Theme) (m : Measure) (next : Nat) : Build := fun b =>
  if b.fits m (b.pendingWidth + next) then emitPending theme keepText b
  else if 0 < b.column then breakLine theme b
  else emitPending theme dropText b

/-! ## §5. Units. -/

/-- Lets tokens wait that take `width` columns. -/
def wait (parts : List Token) (width : Nat) (b : Builder) : Builder :=
  { b with pending := b.pending ++ parts, pendingWidth := b.pendingWidth + width }

/-- Emits a cluster of a dense word, on a new line if it fits only there. -/
def addCluster (theme : Theme) (m : Measure) (cluster : Text) : Build := fun b => do
  let b ← if 0 < b.column && !b.fits m (Text.width cluster) then breakLine theme b else .ok b
  return b.emitText cluster

/-- Emits text of a dense word, cluster by cluster. -/
def addClusters (theme : Theme) (m : Measure) (t : Text) : Build :=
  each (addCluster theme m) (Text.clusters t)

/-- Emits a dense word. -/
def addDense (theme : Theme) (m : Measure) (parts : List Token) : Build := fun b =>
  match parts.find? fun token => token.isLiteral && !token.plain.isEmpty with
  | none => .error .noText
  | some first =>
    match Text.clusters first.plain with
    | [] => .error .noCluster
    | cluster :: _ => do
      each (emitBy theme (addClusters theme m)) parts
        (← placeSeparator theme m (Text.width cluster) b)

/-- Takes one unit.  A word without text waits like the blanks around it. -/
def add (theme : Theme) (m : Measure) : TokenUnit → Build
  | .newline => endLine theme m
  | .blank t => fun b => .ok (b.wait [.literal t] (Text.width t))
  | .word parts => fun b =>
    if !parts.any Token.isLiteral then .ok (b.wait parts 0)
    else if m.threshold < tokensWidth parts then addDense theme m parts b
    else do
      each (emitBy theme keepText) parts (← placeSeparator theme m (tokensWidth parts) b)

/-- Ends the text and gives its lines. -/
def finish (theme : Theme) (m : Measure) (b : Builder) : Except BuildFault (List Text) := do
  let b ← emitPending theme (keepFitting m) b
  return b.lines ++ [b.line ++ b.lineEnd false]

end Builder

/-! ## §6. Texts. -/

/-- Wraps a text to `width` columns by a builder. -/
def Text.reshape (theme : Theme) (t : Text) (width : Int) (threshold? : Option Int) :
    Except BuildFault Text :=
  let m : Measure := ⟨width, threshold?.getD width⟩
  match t.tokens with
  | .error fault => .error (.fault fault)
  | .ok ts => do
    let b ← Builder.each (Builder.add theme m) (TokenUnit.ofTokens [] ts) Builder.start
    return unlines (← b.finish theme m)

end TermMarkup
