/-
  TermMarkup.Stack
  ────────────────
  THE STYLES THAT ARE ON at a place in a text, in the order of their opening.
  A close need not match the latest opening: it removes what it names wherever
  that stands, and one that names nothing open is ignored.
-/
import TermMarkup.Style
import TermMarkup.Token

namespace TermMarkup

/-! ## §1. Entries and stacks. -/

/-- What opened a style. -/
inductive Origin where
  | markup
  | ansi
  deriving DecidableEq, Repr

/-- One open style.  The entries of one word in one tag share a `group`, and groups count from one;
SGR codes open in group zero. -/
structure Entry where
  name : Text
  opens : Text
  closes : Text
  origin : Origin
  group : Int
  deriving DecidableEq, Repr

/-- The open styles, and the latest group that was given out. -/
structure Stack where
  entries : List Entry
  lastGroup : Int
  deriving DecidableEq, Repr

/-- The codes that open all entries. -/
def openings (entries : List Entry) : Text := entries.flatMap Entry.opens

/-- The codes that close all entries. -/
def closings (entries : List Entry) : Text := entries.flatMap Entry.closes

namespace Stack

/-- Nothing open. -/
def empty : Stack := ⟨[], 0⟩

/-! ## §2. Pushing and closing. -/

def push (s : Stack) (e : Entry) : Stack := { s with entries := s.entries ++ [e] }

def clear (s : Stack) : Stack := { s with entries := [] }

/-- The group that closing `name` removes: that of the LATEST markup entry of this name. -/
def groupToClose? (s : Stack) (name : Text) : Option Int :=
  (s.entries.reverse.find? fun e => e.origin = .markup ∧ e.name = name).map Entry.group

/-- Removes the latest group of `name`; gives the removed entries. -/
def close (s : Stack) (name : Text) : List Entry × Stack :=
  match s.groupToClose? name with
  | none => ([], s)
  | some group =>
    let goes := fun e : Entry => decide (e.name = name ∧ e.group = group)
    (s.entries.filter goes, { s with entries := s.entries.filter fun e => !goes e })

/-- Closes several names, one after the other; gives all removed entries. -/
def closeAll (s : Stack) : List Text → List Entry × Stack
  | [] => ([], s)
  | name :: rest =>
    let (removed, s) := s.close name
    let (more, s) := s.closeAll rest
    (removed ++ more, s)

/-! ## §3. Tags. -/

/-- Opens the pairs of one word as a new group. -/
def openWord (s : Stack) (word : Text) (pairs : List StylePair) : Stack :=
  let group := s.lastGroup + 1
  { entries := s.entries ++ pairs.map fun p => ⟨word, p.opens, p.closes, .markup, group⟩
    lastGroup := group }

/-- The pairs of each word of a tag.  All words are resolved before any is opened. -/
def resolveWords (theme : Theme) (tag : Text) (words : List Text) :
    Except Fault (List (Text × List StylePair)) :=
  words.mapM fun word => return (word, ← Style.resolve theme tag word)

/-- Opens the words of a tag; gives the codes to write. -/
def openTag (theme : Theme) (s : Stack) (tag : Text) (words : List Text) :
    Except Fault (Text × Stack) := do
  let resolved ← resolveWords theme tag words
  return (resolved.flatMap fun (_, pairs) => pairs.flatMap StylePair.opens,
    resolved.foldl (fun s (word, pairs) => s.openWord word pairs) s)

/-- Closes the words of a tag; gives the codes to write: the closes of what goes, in the order of
the stack, then the openings of what stays and was switched off along with it. -/
def closeTag (s : Stack) (words : List Text) : Text × Stack :=
  let (removed, after) := s.closeAll words
  let closed := s.entries.filter fun e => removed.contains e
  let restored := after.entries.filter fun e => (closed.map Entry.closes).contains e.closes
  (closings closed ++ openings restored, after)

/-! ## §4. SGR codes. -/

/-- Lets one effect of a code act on the stack.  A new opening takes the place of an earlier one by
SGR of the same dimension. -/
def applyEffect (s : Stack) : Effect → Stack
  | .reset => s.clear
  | .switchOff channel =>
    { s with entries := s.entries.filter fun e => e.closes ≠ channel.closeCode }
  | .switchOn dimension params =>
    let others := s.entries.filter fun e => !(e.origin = .ansi ∧ e.name = dimension.name)
    { s with entries := others ++
        [⟨dimension.name, Sgr.code params, dimension.channel.closeCode, .ansi, 0⟩] }

/-- Lets a code act on the stack.  It is read in full before anything changes. -/
def applyCode (s : Stack) (code : Text) : Except Fault Stack :=
  return (← Effect.ofCode code).foldl applyEffect s

/-! ## §5. Tokens. -/

/-- Lets a style token act on the stack; gives the codes to write. -/
def apply (theme : Theme) (s : Stack) : Token → Except Fault (Text × Stack)
  | .literal _ => .error .literalApplied
  | .tagOpen source words => openTag theme s source words
  | .tagClose _ words => .ok (s.closeTag words)
  | .codeOpen code _ | .codeClose code => return (code, ← s.applyCode code)

/-- Lets tokens act on the stack from left to right, literal text passing through.  A fault ends the
run, and the tokens before it keep their effect. -/
def feed (theme : Theme) (s : Stack) : List Token → Except Fault (List Text) × Stack
  | [] => (.ok [], s)
  | .literal t :: rest =>
    let (written, s) := s.feed theme rest
    (written.map (t :: ·), s)
  | token :: rest =>
    match s.apply theme token with
    | .error fault => (.error fault, s)
    | .ok (codes, s) =>
      let (written, s) := s.feed theme rest
      (written.map (codes :: ·), s)

end Stack

end TermMarkup
