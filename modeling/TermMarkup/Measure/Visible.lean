/-
  TermMarkup.Measure.Visible
  ──────────────────────────
  WHAT IS VISIBLE of a text that holds marks: its width without them, the text
  itself without them, and lines filled up to a common width.

  Text that is all printable ASCII is measured by counting, and that is its
  width (`columns_eq_width`).
-/
import TermMarkup.Measure.Width
import TermMarkup.Sgr.Code
import TermMarkup.Tag
import TermMarkup.Text.Copies
import TermMarkup.Text.Unprintable

namespace TermMarkup

/-! ## §1. Columns. -/

/-- A printable ASCII character. -/
def isPlainAscii (c : Char) : Bool := c.toNat < 0x80 && isPrintable c

theorem charWidth_of_isPlainAscii {c : Char} (h : isPlainAscii c = true) : charWidth c = 1 := by
  have hall : ∀ n < 0x80, unprintableRanges.contains n = false →
      zeroWidthRanges.contains n = false ∧ doubleWidthRanges.contains n = false := by
    decide
  obtain ⟨hascii, hprintable⟩ := Bool.and_eq_true_iff.mp h
  obtain ⟨hzero, hdouble⟩ :=
    hall c.toNat (of_decide_eq_true hascii) ((Bool.not_eq_true' _).mp hprintable)
  unfold charWidth
  rw [hzero, hdouble]
  rfl

namespace Text

/-- The columns of a text that holds no marks.  If it is all printable ASCII its characters are
COUNTED, else their widths are summed up. -/
def columns (t : Text) : Nat := if t.all isPlainAscii then t.length else Text.width t

/-- **Counting printable ASCII gives its width.** -/
theorem columns_eq_width (t : Text) : columns t = Text.width t := by
  have hcount : ∀ u : Text, (∀ c ∈ u, isPlainAscii c = true) → u.length = Text.width u := by
    intro u hu
    induction u with
    | nil => rfl
    | cons c u ih =>
      rw [List.length_cons, width_cons, charWidth_of_isPlainAscii (hu c List.mem_cons_self),
        ih fun d hd => hu d (List.mem_cons_of_mem _ hd), Nat.add_comm]
  unfold columns
  split
  · next hascii => exact hcount t (List.all_eq_true.mp hascii)
  · rfl

/-! ## §2. What is visible. -/

/-- The columns of the text: tags are stripped, then codes removed, and the rest is measured. -/
def visibleWidth (t : Text) : Nat := columns (removeCodes (stripTags t))

theorem visibleWidth_eq (t : Text) : visibleWidth t = Text.width (removeCodes (stripTags t)) :=
  columns_eq_width _

/-- The text without tags and codes. -/
def clean (t : Text) : Except Fault Text := return removeCodes (← removeTags t)

/-- Adds spaces to a line that is narrower than `target`, if memory has `room` for so many. -/
def padTo (room : Nat) (target : Int) (line : Text) : Except Fault Text :=
  return line ++ (← copies room (max (target - visibleWidth line) 0) [' '])

/-- The width of the widest line. -/
def widest (ls : List Text) : Nat := (ls.map visibleWidth).foldl max 0

/-- Fills every line up to a common width: the given one, else that of the widest line. -/
def fillLines (room : Nat) (t : Text) (width? : Option Int) : Except Fault Text :=
  let ls := lines t
  return unlines (← ls.mapM (padTo room (width?.getD (widest ls))))

end Text

end TermMarkup
