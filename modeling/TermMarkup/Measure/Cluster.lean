/-
  TermMarkup.Measure.Cluster
  ──────────────────────────
  GRAPHEME CLUSTERS: what a reader sees as one character.  A small automaton
  runs over the break classes; from the state that the characters before have
  left it says, for each character, whether a cluster ENDS before it.

  `clusters_flatten` says that the clusters make up the text.
-/
import TermMarkup.Measure.BreakClass
import TermMarkup.Text.Basic

namespace TermMarkup

/-! ## §1. The automaton. -/

/-- What the search for boundaries remembers of the characters before. -/
inductive ClusterState where
  | default
  | afterReturn
  /-- After a line feed or a control character. -/
  | afterBreak
  | prepend
  | leadingJamo
  /-- After a vowel, or a syllable that can still take a vowel or a trailing consonant. -/
  | openSyllable
  /-- After a trailing consonant, or a syllable that has one. -/
  | closedSyllable
  | emoji
  | emojiJoiner
  | regionalIndicator
  deriving DecidableEq, Repr

namespace ClusterState

/-- The state after a character whose class alone decides. -/
def ofClass : BreakClass → ClusterState
  | .carriageReturn => .afterReturn
  | .lineFeed | .control => .afterBreak
  | .pictograph => .emoji
  | .regionalIndicator => .regionalIndicator
  | .leadingJamo => .leadingJamo
  | .openSyllable | .vowelJamo => .openSyllable
  | .closedSyllable | .trailingJamo => .closedSyllable
  | .prepend => .prepend
  | .extend | .spacingMark | .joiner | .other => .default

/-- Whether a character of this class starts a cluster where its class alone decides. -/
def startsCluster : BreakClass → Bool
  | .extend | .spacingMark | .joiner => false
  | _ => true

/-- The boundary before a character where its class alone decides, and the next state. -/
def plainStep (k : BreakClass) : Bool × ClusterState := (startsCluster k, ofClass k)

/-- Whether a cluster ends before a character of class `k`, and the next state.  A leading consonant
takes another one, a vowel or a syllable with it, but NOT a trailing consonant. -/
def step : ClusterState → BreakClass → Bool × ClusterState
  | .default, k => plainStep k
  | .afterReturn, .lineFeed => (false, .afterBreak)
  | .afterReturn, k => (true, ofClass k)
  | .afterBreak, k => (true, ofClass k)
  | .prepend, .control | .prepend, .lineFeed => (true, .default)
  | .prepend, .carriageReturn => (true, .afterReturn)
  | .prepend, k => (false, ofClass k)
  | .leadingJamo, .vowelJamo | .leadingJamo, .openSyllable => (false, .openSyllable)
  | .leadingJamo, .closedSyllable => (false, .closedSyllable)
  | .leadingJamo, .leadingJamo => (false, .leadingJamo)
  | .openSyllable, .vowelJamo => (false, .openSyllable)
  | .openSyllable, .trailingJamo => (false, .closedSyllable)
  | .closedSyllable, .trailingJamo => (false, .closedSyllable)
  | .emoji, .extend => (false, .emoji)
  | .emoji, .joiner => (false, .emojiJoiner)
  | .emojiJoiner, .pictograph => (false, .emoji)
  | .regionalIndicator, .regionalIndicator => (false, .default)
  | _, k => plainStep k

end ClusterState

/-! ## §2. Clusters of a text. -/

/-- The break class of a character. -/
def breakClass (c : Char) : BreakClass := BreakClass.ofCode c.toNat

/-- What still belongs to the cluster before, and the clusters after it. -/
def clustersAfter (state : ClusterState) : Text → Text × List Text
  | [] => ([], [])
  | c :: cs =>
    let (ends, next) := state.step (breakClass c)
    let (more, rest) := clustersAfter next cs
    if ends then ([], (c :: more) :: rest) else (c :: more, rest)

/-- The grapheme clusters of a text. -/
def Text.clusters : Text → List Text
  | [] => []
  | c :: cs =>
    let (more, rest) := clustersAfter (ClusterState.ofClass (breakClass c)) cs
    (c :: more) :: rest

theorem clustersAfter_flatten (state : ClusterState) (t : Text) :
    (clustersAfter state t).1 ++ (clustersAfter state t).2.flatten = t := by
  induction t generalizing state with
  | nil => rfl
  | cons c cs ih =>
    have h := ih (state.step (breakClass c)).2
    cases hb : (state.step (breakClass c)).1 <;> simp [clustersAfter, hb, h]

theorem Text.clusters_flatten (t : Text) : (Text.clusters t).flatten = t := by
  cases t with
  | nil => rfl
  | cons c cs => simp [Text.clusters, clustersAfter_flatten]

end TermMarkup
