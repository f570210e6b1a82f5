/-
  TermMarkup.Text.Basic
  ─────────────────────
  TEXT AS A LIST OF CODE POINTS, with the operations that look at no character
  class: fields between separators, lines, prefixes, removal of a character.

  `unlines_lines` says that joining the lines of a text gives the text back.
-/
namespace TermMarkup

/-- A text is the list of its code points, so lengths, offsets and cuts count code points. -/
abbrev Text := List Char

namespace Text

/-! ## §1. Fields and lines. -/

/-- The fields between the characters that `p` marks: always one more than there are marks. -/
def fieldsBy (p : Char → Bool) : Text → List Text
  | [] => [[]]
  | c :: cs =>
    if p c then [] :: fieldsBy p cs
    else match fieldsBy p cs with
      | [] => [[c]]
      | field :: rest => (c :: field) :: rest

/-- The fields between occurrences of `separator`. -/
def fields (separator : Char) (t : Text) : List Text := fieldsBy (· == separator) t

/-- Joins texts with `separator` between neighbours. -/
def join (separator : Text) (ts : List Text) : Text := List.intercalate separator ts

theorem join_singleton (separator t : Text) : join separator [t] = t := List.intercalate_singleton

theorem join_cons_cons (separator t u : Text) (ts : List Text) :
    join separator (t :: u :: ts) = t ++ (separator ++ join separator (u :: ts)) := by
  unfold join
  rw [List.intercalate_cons_cons, List.append_assoc]

/-- The lines of a text; a final newline leaves a last, empty line. -/
def lines (t : Text) : List Text := fields '\n' t

/-- Joins lines by newlines. -/
def unlines (ts : List Text) : Text := join ['\n'] ts

theorem unlines_singleton (t : Text) : unlines [t] = t := join_singleton _ t

theorem unlines_cons_cons (t u : Text) (ts : List Text) :
    unlines (t :: u :: ts) = t ++ '\n' :: unlines (u :: ts) := join_cons_cons _ t u ts

theorem fieldsBy_ne_nil (p : Char → Bool) (t : Text) : fieldsBy p t ≠ [] := by
  cases t with
  | nil => simp [fieldsBy]
  | cons c cs =>
    unfold fieldsBy
    split
    · simp
    · split <;> simp

theorem unlines_lines (t : Text) : unlines (lines t) = t := by
  induction t with
  | nil => rfl
  | cons c cs ih =>
    unfold lines fields fieldsBy
    unfold lines fields at ih
    have hne := fieldsBy_ne_nil (· == '\n') cs
    cases hf : fieldsBy (· == '\n') cs with
    | nil => exact absurd hf hne
    | cons field rest =>
      rw [hf] at ih
      split
      · next h =>
        have hc : c = '\n' := by simpa using h
        simp [unlines, join, List.intercalate, List.intersperse] at ih ⊢
        exact ⟨hc.symm, ih⟩
      · cases rest with
        | nil => simpa [unlines, join, List.intercalate, List.intersperse] using ih
        | cons g gs => simpa [unlines, join, List.intercalate, List.intersperse] using ih

/-! ## §2. Prefixes, removal, repetition. -/

/-- What follows the prefix `p`, if `t` starts with it. -/
def after? : (p t : Text) → Option Text
  | [], t => some t
  | _ :: _, [] => none
  | d :: ds, c :: cs => if d = c then after? ds cs else none

theorem eq_append_of_after? {p t rest : Text} (h : after? p t = some rest) : t = p ++ rest := by
  induction p generalizing t with
  | nil => exact Option.some.inj h
  | cons d ds ih =>
    cases t with
    | nil => exact nomatch h
    | cons c cs =>
      unfold after? at h
      split at h
      · next hc => rw [ih h, hc, List.cons_append]
      · exact nomatch h

/-- The text without the characters that `p` marks. -/
def removeAll (p : Char → Bool) (t : Text) : Text := t.filter fun c => !p c

/-- `n` copies of a text, one after the other. -/
def repeated (n : Nat) (t : Text) : Text := (List.replicate n t).flatten

theorem repeated_singleton (n : Nat) (c : Char) : repeated n [c] = List.replicate n c :=
  List.flatten_replicate_singleton

/-- Every non-overlapping pair of `c`, taken from the left, becomes a single `c`. -/
def halvePairs (c : Char) : Text → Text
  | a :: b :: rest =>
    if a = c ∧ b = c then c :: halvePairs c rest
    else a :: halvePairs c (b :: rest)
  | t => t

/-- Every `c` becomes two. -/
def doubleEach (c : Char) (t : Text) : Text := t.flatMap fun a => if a = c then [c, c] else [a]

/-! ## §3. Order. -/

/-- The order by code points, in which a text comes before its continuations. -/
def notAfter : Text → Text → Bool
  | [], _ => true
  | _ :: _, [] => false
  | a :: as, b :: bs => a.toNat < b.toNat || (a == b && notAfter as bs)

end Text

/-! ## §4. Numbers as text. -/

/-- The decimal digits of a natural number. -/
def digitsOf (n : Nat) : Text := Nat.toDigits 10 n

/-- The decimal digits of an integer, with a minus sign below zero. -/
def decimalOf (i : Int) : Text :=
  if i < 0 then '-' :: digitsOf i.natAbs else digitsOf i.natAbs

end TermMarkup
