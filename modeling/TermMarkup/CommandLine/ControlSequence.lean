/-
  TermMarkup.CommandLine.ControlSequence
  ──────────────────────────────────────
  CONTROL SEQUENCES, of which SGR codes are one kind: `ESC [`, parameter
  characters, intermediate characters, and one final character, each of the
  three from a row of its own of the ASCII table.  They are kept from streams
  that are no terminal.
-/
import TermMarkup.Sgr.Basic

namespace TermMarkup.ControlSequence

/-! ## §1. Characters. -/

/-- Whether the code of `c` lies from `low` to `high`. -/
def inRow (low high : Nat) (c : Char) : Bool := low ≤ c.toNat && c.toNat ≤ high

/-- A parameter character: a digit or one of `:;<=>?`. -/
def isParameter (c : Char) : Bool := inRow 0x30 0x3F c

/-- An intermediate character: the space or one of the signs before the digits. -/
def isIntermediate (c : Char) : Bool := inRow 0x20 0x2F c

/-- A final character: from `@` to the tilde, letters among them. -/
def isFinal (c : Char) : Bool := inRow 0x40 0x7E c

/-! ## §2. Sequences. -/

/-- The length of the control sequence at the start of a text. -/
def length? : Text → Option Nat
  | '\x1b' :: '[' :: rest =>
    let parameters := rest.takeWhile isParameter
    let rest := rest.drop parameters.length
    let intermediates := rest.takeWhile isIntermediate
    if (rest.drop intermediates.length).head?.any isFinal then
      some (parameters.length + intermediates.length + 3)
    else none
  | _ => none

/-- The text without the control sequences that one scan finds. -/
def remove : Text → Text
  | [] => []
  | c :: cs =>
    match length? (c :: cs) with
    | some n => remove (cs.drop (n - 1))
    | none => c :: remove cs
termination_by t => t.length
decreasing_by all_goals simp only [List.length_cons, List.length_drop]; omega

end TermMarkup.ControlSequence
