/-
  TermMarkup.Proofs.LineWidths
  ────────────────────────────
  A TEXT IS MEASURED PIECE BY PIECE.  Marks are deleted scan after scan, since a
  deletion can join the text around it to a new mark.  But where no mark reaches
  across, each scan acts on both sides by itself, so all of them do.  No mark
  reaches across a newline, and none into text that lacks the character that
  ends it.

    • `clearMarks_eq_iterate` — clearing marks is one scan after another,
    • `clearMarks_newline` — on both sides of a newline,
    • `Recognizer.Closes`, `clearMarks_append` — in front of text that ends no
      mark,
    • `visibleWidth_append` — such text adds its own width,
    • `visibleWidth_lines` — the width of a text is the sum of those of its lines.
-/
import TermMarkup.Measure.Visible
import TermMarkup.Proofs.Newlines
import TermMarkup.Proofs.VisibleText
import Mathlib.Logic.Function.Iterate

namespace TermMarkup

variable {read : Recognizer}

/-! ## §1. Scan after scan. -/

theorem plainOf_append (ps qs : List Piece) : plainOf (ps ++ qs) = plainOf ps ++ plainOf qs :=
  List.filterMap_append

/-- Clearing marks may begin with a scan. -/
theorem clearMarks_dropMarks (read : Recognizer) (t : Text) :
    clearMarks read (dropMarks read t) = clearMarks read t := by
  by_cases hlt : (dropMarks read t).length < t.length
  · rw [clearMarks_eq read t, if_pos hlt]
  · rw [dropMarks_eq_of_not_lt hlt]

/-- **Clearing marks is one scan after another**, as often as the text has characters or more. -/
theorem clearMarks_eq_iterate (read : Recognizer) {n : Nat} {t : Text} (hn : t.length ≤ n) :
    clearMarks read t = (dropMarks read)^[n] t := by
  induction n generalizing t with
  | zero =>
    obtain rfl := List.length_eq_zero_iff.mp (Nat.le_zero.mp hn)
    rw [clearMarks_eq, if_neg (by simp)]
    rfl
  | succ n ih =>
    rw [Function.iterate_succ_apply]
    by_cases hlt : (dropMarks read t).length < t.length
    · rw [← ih (by omega), clearMarks_dropMarks]
    · -- the scan takes nothing, and no later one does
      have hsame := dropMarks_eq_of_not_lt hlt
      rw [hsame, Function.iterate_fixed hsame, clearMarks_eq, if_neg hlt]

/-! ## §2. Across a newline. -/

section

variable (hread : read.Finds) (hline : read.StaysOnLine)
include hread hline

theorem dropMarks_newline (s t : Text) :
    dropMarks read (s ++ '\n' :: t) = dropMarks read s ++ '\n' :: dropMarks read t := by
  unfold dropMarks pieces
  rw [scan_newline hread hline, plainOf_append, plainOf_plain]

/-- **Marks are cleared on both sides of a newline by themselves.** -/
theorem clearMarks_newline (s t : Text) :
    clearMarks read (s ++ '\n' :: t) = clearMarks read s ++ '\n' :: clearMarks read t := by
  have hscans : ∀ n s t, (dropMarks read)^[n] (s ++ '\n' :: t)
      = (dropMarks read)^[n] s ++ '\n' :: (dropMarks read)^[n] t := by
    intro n
    induction n with
    | zero => exact fun _ _ => rfl
    | succ n ih =>
      intro s t
      rw [Function.iterate_succ_apply, dropMarks_newline hread hline, ih]
      rfl
  have hs : s.length ≤ (s ++ '\n' :: t).length := by simp
  have ht : t.length ≤ (s ++ '\n' :: t).length := by
    rw [List.length_append, List.length_cons]
    omega
  rw [clearMarks_eq_iterate read (Nat.le_refl _), hscans, ← clearMarks_eq_iterate read hs,
    ← clearMarks_eq_iterate read ht]

end

/-! ## §3. In front of text that ends no mark. -/

/-- Every mark ends in `c`, and is recognised without what follows it. -/
def Recognizer.Closes (read : Recognizer) (c : Char) : Prop :=
  ∀ b t m, read b t = some m → m.source.getLast? = some c ∧ read b m.source = some m

theorem code?_closes : Recognizer.Closes Mark.code? 'm' := by
  intro b t m h
  obtain ⟨p, -, rfl, hformed, -⟩ := code?_eq_some_iff.mp h
  refine ⟨?_, code?_eq_some_iff.mpr ⟨p, [], rfl, hformed, (List.append_nil _).symm⟩⟩
  exact List.getLast?_concat (a := 'm') (l := Sgr.escape :: '[' :: p)

theorem tag?_closes : Recognizer.Closes Mark.tag? '}' := by
  intro b t m h
  obtain ⟨hb, closes, body, -, rfl, hformed, -⟩ := tag?_eq_some_iff.mp h
  exact ⟨List.getLast?_concat,
    tag?_eq_some_iff.mpr ⟨hb, closes, body, [], rfl, hformed, (List.append_nil _).symm⟩⟩

section

variable {c : Char} (hread : read.Finds) (hmore : read.Extends) (hcloses : read.Closes c)
include hread hmore hcloses

/-- **No mark reaches into text that lacks the character that ends it.** -/
theorem Recognizer.Closes.endsBefore {u : Text} (hu : c ∉ u) : read.EndsBefore u := by
  intro b t
  cases hm : read b (t ++ u) with
  | none =>
    cases hm' : read b t with
    | none => rfl
    | some m => exact nomatch hm.symm.trans (hmore b t m u hm')
  | some m =>
    obtain ⟨rest, hsource⟩ := hread b _ m hm
    obtain ⟨hlast, halone⟩ := hcloses b _ m hm
    rcases List.append_eq_append_iff.mp hsource with ⟨z, hz, rfl⟩ | ⟨z, rfl, -⟩
    · -- the mark would end inside the text behind, unless all of it stands in front
      cases z with
      | nil =>
        rw [List.append_nil] at hz
        exact (hz ▸ halone).symm
      | cons d z =>
        rw [hz, List.getLast?_append, List.getLast?_cons] at hlast
        refine absurd (List.mem_append_left rest ?_) hu
        exact List.mem_of_getLast? (by simpa [List.getLast?_cons] using hlast)
    · exact (hmore b _ m z halone).symm

omit hmore in
/-- Text that lacks the character that ends marks holds none. -/
theorem dropMarks_of_notMem {u : Text} (hu : c ∉ u) : dropMarks read u = u := by
  refine dropMarks_eq_self hread fun m hm => hu ?_
  obtain ⟨b, t, hfound⟩ := mem_scan hm
  have hend : c ∈ m.source := List.mem_of_getLast? (hcloses b t m hfound).1
  rw [← scan_source hread false u]
  exact List.mem_flatMap.mpr ⟨_, hm, hend⟩

/-- **Marks are cleared in front of text that ends none** as if the text did not follow. -/
theorem clearMarks_append {u : Text} (hu : c ∉ u) (t : Text) :
    clearMarks read (t ++ u) = clearMarks read t ++ u := by
  have hback := Recognizer.Closes.endsBefore hread hmore hcloses hu
  have hdrop : ∀ t, dropMarks read (t ++ u) = dropMarks read t ++ u := by
    intro t
    have hself := dropMarks_of_notMem hread hcloses hu
    unfold dropMarks pieces at hself ⊢
    rw [scan_append hread hback, plainOf_append, hself]
  have hscans : ∀ n t, (dropMarks read)^[n] (t ++ u) = (dropMarks read)^[n] t ++ u := by
    intro n
    induction n with
    | zero => exact fun _ => rfl
    | succ n ih =>
      intro t
      rw [Function.iterate_succ_apply, hdrop, ih]
      rfl
  have ht : t.length ≤ (t ++ u).length := by simp
  rw [clearMarks_eq_iterate read (Nat.le_refl _), hscans, ← clearMarks_eq_iterate read ht]

end

/-! ## §4. Widths. -/

namespace Text

/-- **Text that ends no mark adds its own width.** -/
theorem visibleWidth_append {u : Text} (hu : 'm' ∉ u ∧ '}' ∉ u) (t : Text) :
    visibleWidth (t ++ u) = visibleWidth t + Text.width u := by
  unfold visibleWidth stripTags removeCodes
  rw [clearMarks_append tag?_finds tag?_extends tag?_closes hu.2,
    clearMarks_append code?_finds code?_extends code?_closes hu.1, columns_eq_width,
    columns_eq_width, width_append]

/-- A newline adds no width. -/
theorem visibleWidth_newline (s t : Text) :
    visibleWidth (s ++ '\n' :: t) = visibleWidth s + visibleWidth t := by
  have hnewline : charWidth '\n' = 0 := by decide
  unfold visibleWidth stripTags removeCodes
  rw [clearMarks_newline tag?_finds tag?_staysOnLine,
    clearMarks_newline code?_finds code?_staysOnLine, columns_eq_width, columns_eq_width,
    columns_eq_width, width_append, width_cons, hnewline, Nat.zero_add]

/-- **The width of a text is the sum of the widths of its lines.** -/
theorem visibleWidth_lines (t : Text) : visibleWidth t = ((lines t).map visibleWidth).sum := by
  have hjoined : ∀ ls : List Text, visibleWidth (unlines ls) = (ls.map visibleWidth).sum := by
    intro ls
    induction ls with
    | nil => decide +kernel
    | cons line ls ih =>
      cases ls with
      | nil =>
        rw [unlines_singleton]
        rfl
      | cons next ls =>
        rw [unlines_cons_cons, visibleWidth_newline, ih]
        exact List.sum_cons.symm
  rw [← hjoined, unlines_lines]

end Text

end TermMarkup
