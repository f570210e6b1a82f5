/-
  TermMarkup.Layout
  ─────────────────
  WORD WRAP THAT KEEPS STYLES.  Compiled text is cut into units (words, blanks,
  newlines), and the units are laid out from left to right.  The layout puts
  down runs and LINE ENDS, which are written out at the end, and what it carries
  along is a small cursor: the column, the runs that wait for the next word, the
  open styles.

  A wrap closes the open styles, resets, starts a line and opens the styles
  again, so every line can stand alone.  A word that is wider than a threshold
  is DENSE: it may be broken between any two of its grapheme clusters.
-/
import TermMarkup.Measure.Cluster
import TermMarkup.Measure.Width
import TermMarkup.Run

namespace TermMarkup

/-! ## §1. Units. -/

/-- A maximal stretch of literal text of one kind. -/
inductive Chunk where
  | newline
  | blank (t : Text)
  | ink (t : Text)
  deriving DecidableEq, Repr

/-- Puts a character in front of chunks. -/
def Chunk.cons (c : Char) (rest : List Chunk) : List Chunk :=
  if c = '\n' then .newline :: rest
  else if isBlank c then
    match rest with
    | .blank t :: rest => .blank (c :: t) :: rest
    | _ => .blank [c] :: rest
  else
    match rest with
    | .ink t :: rest => .ink (c :: t) :: rest
    | _ => .ink [c] :: rest

/-- The chunks of a literal text. -/
def Text.chunks (t : Text) : List Chunk := t.foldr Chunk.cons []

/-- What the layout places. -/
inductive LayoutUnit where
  /-- Text without blanks, with the style runs inside it and directly after it. -/
  | word (parts : List Run)
  | blank (t : Text)
  | newline
  deriving DecidableEq, Repr

/-- Ends the word that is being gathered. -/
def LayoutUnit.flush (word : List Run) (rest : List LayoutUnit) : List LayoutUnit :=
  if word.isEmpty then rest else .word word :: rest

/-- Adds chunks to the word that is being gathered; gives the finished units and the word that is
still open. -/
def LayoutUnit.ofChunks (word : List Run) : List Chunk → List LayoutUnit × List Run
  | [] => ([], word)
  | .newline :: rest =>
    let (units, last) := ofChunks [] rest
    (flush word (.newline :: units), last)
  | .blank t :: rest =>
    let (units, last) := ofChunks [] rest
    (flush word (.blank t :: units), last)
  | .ink t :: rest => ofChunks (word ++ [.text t]) rest

/-- The units of runs, after the runs of an open word.  A style run joins the word before it, or the
next one where blanks stand between. -/
def LayoutUnit.ofRuns (word : List Run) : List Run → List LayoutUnit
  | [] => flush word []
  | .style codes active :: rest => ofRuns (word ++ [.style codes active]) rest
  | .text t :: rest =>
    let (units, last) := ofChunks word t.chunks
    units ++ ofRuns last rest

/-! ## §2. Widths of runs. -/

/-- The columns of a run. -/
def Run.width (r : Run) : Nat := Text.width r.literal

/-- The columns of several runs. -/
def runsWidth (rs : List Run) : Nat := rs.foldr (fun r n => r.width + n) 0

/-- Whether a run is literal text. -/
def Run.isText : Run → Bool
  | .text _ => true
  | .style _ _ => false

/-- The columns of the first grapheme cluster of the first text among `parts`. -/
def firstClusterWidth (parts : List Run) : Nat :=
  match parts.find? Run.isText with
  | some r => Text.width ((Text.clusters r.literal).headD [])
  | none => 0

/-! ## §3. The cursor. -/

/-- How a text is laid out: the width of a line, and the width beyond which a word is dense. -/
structure Measure where
  width : Int
  threshold : Int

/-- The place of the layout. -/
structure Cursor where
  /-- The columns of the current line that hold placed text. -/
  column : Nat
  /-- Blanks and style runs since the last word of the line. -/
  pending : List Run
  /-- The styles open at the end of what is written. -/
  active : List Entry

/-- What the layout puts down.  A line end holds the styles that are open there. -/
inductive Placed where
  | run (r : Run)
  /-- A line end that the layout puts in: the styles end here and start again below. -/
  | wrap (active : List Entry)
  /-- A line end of the text: the styles, if any are open, end here and start again below. -/
  | newline (active : List Entry)
  /-- The end of the text. -/
  | stop (active : List Entry)
  deriving DecidableEq, Repr

/-- What is written for it. -/
def Placed.written : Placed → Text
  | run r => r.written
  | wrap active => closings active ++ Sgr.reset ++ '\n' :: openings active
  | newline active => Text.ending active ++ '\n' :: openings active
  | stop active => Text.ending active

/-- A layout step: from a cursor to what is put down and the next cursor. -/
abbrev Step := Cursor → List Placed × Cursor

namespace Step

/-- Puts nothing down. -/
def stay : Step := fun c => ([], c)

/-- One step, then another. -/
def andThen (first second : Step) : Step := fun c =>
  let (a, c) := first c
  let (b, c) := second c
  (a ++ b, c)

/-- The steps for the members of a list, in order. -/
def each (step : α → Step) : List α → Step
  | [] => stay
  | x :: xs => andThen (step x) (each step xs)

/-! ## §4. Single steps. -/

/-- Whether `extra` more columns fit in the line. -/
def fits (m : Measure) (c : Cursor) (extra : Nat) : Bool := (c.column + extra : Int) ≤ m.width

/-- Places a run: its text takes columns, its styles become the open ones. -/
def place (r : Run) : Step := fun c =>
  ([.run r], { c with column := c.column + r.width, active := r.after c.active })

/-- Ends the line, by a line end that is told which styles are open. -/
def endLine (lineEnd : List Entry → Placed) : Step := fun c =>
  ([lineEnd c.active], { c with column := 0 })

/-- Takes the waiting runs off the cursor and hands them to a step. -/
def withPending (use : List Run → Step) : Step := fun c => use c.pending { c with pending := [] }

/-- Places the waiting runs. -/
def commitPending : Step := withPending (each place)

/-- Places the waiting style runs and drops the waiting blanks. -/
def dropPendingBlanks : Step := withPending fun rs => each place (rs.filter fun r => !r.isText)

/-- Wraps: waiting blanks vanish, and a new line begins. -/
def wrap : Step := andThen dropPendingBlanks (endLine .wrap)

/-- The longest start of a text that fits in the line. -/
def fitting (m : Measure) (column : Nat) : Text → Text
  | [] => []
  | ch :: rest =>
    if (column + charWidth ch : Int) ≤ m.width then ch :: fitting m (column + charWidth ch) rest
    else []

/-- Places a waiting run at the end of a line, of blanks as much as fits. -/
def placeTrailing (m : Measure) : Run → Step
  | .text t => fun c => place (.text (fitting m c.column t)) c
  | r => place r

/-- Places the waiting runs at the end of a line, of blanks as much as fits. -/
def flushPending (m : Measure) : Step := withPending (each (placeTrailing m))

/-! ## §5. Units. -/

/-- Makes room for `next` columns: places the waiting runs if all fits, else wraps; at the start of
a line the waiting blanks just go. -/
def makeRoom (m : Measure) (next : Nat) : Step := fun c =>
  if fits m c (runsWidth c.pending + next) then commitPending c
  else if 0 < c.column then wrap c
  else dropPendingBlanks c

/-- Places a cluster of a dense word, on a new line if it fits only there. -/
def placeCluster (m : Measure) (cluster : Text) : Step := fun c =>
  if 0 < c.column && !fits m c (Text.width cluster) then
    andThen wrap (place (.text cluster)) c
  else place (.text cluster) c

/-- Places a part of a dense word. -/
def placeDense (m : Measure) : Run → Step
  | .text t => each (placeCluster m) (Text.clusters t)
  | r => place r

/-- Lays out one unit.  A word without text waits like the blanks around it. -/
def ofUnit (m : Measure) : LayoutUnit → Step
  | .newline => andThen (flushPending m) (endLine .newline)
  | .blank t => fun c => ([], { c with pending := c.pending ++ [.text t] })
  | .word parts =>
    if !parts.any Run.isText then fun c => ([], { c with pending := c.pending ++ parts })
    else if m.threshold < runsWidth parts then
      andThen (makeRoom m (firstClusterWidth parts)) (each (placeDense m) parts)
    else andThen (makeRoom m (runsWidth parts)) (each place parts)

end Step

/-! ## §6. Texts. -/

/-- The cursor at the start of a text. -/
def Cursor.start : Cursor := ⟨0, [], []⟩

/-- What is put down for compiled text. -/
def placements (m : Measure) (rs : List Run) : List Placed :=
  (Step.andThen (Step.each (Step.ofUnit m) (LayoutUnit.ofRuns [] rs))
    (Step.andThen (Step.flushPending m) (Step.endLine .stop)) Cursor.start).1

/-- Lays out compiled text. -/
def layout (m : Measure) (rs : List Run) : Text := (placements m rs).flatMap Placed.written

/-- Wraps a text to `width` columns.  Words are dense if they are wider than `threshold?`, or than
the line if no threshold is given. -/
def Text.wrap (theme : Theme) (t : Text) (width : Int) (threshold? : Option Int) :
    Except Fault Text :=
  return layout ⟨width, threshold?.getD width⟩ (← runs theme t)

end TermMarkup
