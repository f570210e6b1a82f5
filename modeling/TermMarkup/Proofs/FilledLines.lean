/-
  TermMarkup.Proofs.FilledLines
  ─────────────────────────────
  LINES FILLED UP TO A COMMON WIDTH.  A space is legal inside a tag, so it is not
  enough that spaces are appended: they end no mark, and therefore each of them
  adds one column and nothing else (`visibleWidth_append`).  A line that has been
  filled is as wide as the target or wider, so filling it again appends nothing.

  Spaces are copies of a space, and a line can be filled if so many can be made:
  no machine fills a line with more of them than a machine word counts.

    • `FilledTo` — a line followed by spaces, as wide as the target or as before,
    • `padTo_eq_ok_iff` — the lines that can be filled, and what they become,
    • `isGreatest_widest`, `widest_map_filled` — the widest line, and that filling
      up to its width keeps it the widest,
    • `fillLines_eq_ok_iff`, `lines_of_fillLines` — the filled lines of a text,
    • `fillLines_fills` — all of it together.
-/
import TermMarkup.Proofs.Copies
import TermMarkup.Proofs.Fields
import TermMarkup.Proofs.LineWidths
import TermMarkup.Proofs.Outcome
import Mathlib.Order.Bounds.Basic

namespace TermMarkup.Text

/-! ## §1. One line. -/

/-- `filled` is the line followed by spaces only, and as wide as `target` or as the line itself. -/
structure FilledTo (target : Int) (line filled : Text) : Prop where
  padded : ∃ n, filled = line ++ List.replicate n ' '
  width : (visibleWidth filled : Int) = max target (visibleWidth line)

/-- How many spaces a line is short of `target`. -/
def missing (target : Int) (line : Text) : Int := max (target - visibleWidth line) 0

/-- The line with the spaces that it is short of. -/
def filledUp (target : Int) (line : Text) : Text :=
  line ++ List.replicate (missing target line).toNat ' '

/-- **A line can be filled if the spaces can be made.** -/
theorem padTo_eq_ok_iff {room : Nat} {target : Int} {line filled : Text} :
    padTo room target line = .ok filled
      ↔ CopiesFit room (missing target line) ∧ filled = filledUp target line := by
  unfold padTo filledUp
  rw [bind_eq_ok, ← repeated_singleton]
  constructor
  · rintro ⟨spaces, hspaces, hfilled⟩
    obtain ⟨hfit, rfl⟩ := copies_eq_ok_iff.mp hspaces
    exact ⟨hfit, (Except.ok.inj hfilled).symm⟩
  · rintro ⟨hfit, rfl⟩
    exact ⟨_, copies_eq_ok_iff.mpr ⟨hfit, rfl⟩, rfl⟩

/-- What goes wrong with a line that cannot be filled. -/
theorem padTo_eq_error_iff {room : Nat} {target : Int} {line : Text} {fault : Fault} :
    padTo room target line = .error fault
      ↔ wordLimit ≤ missing target line ∧ fault = .countTooLarge
        ∨ (room < missing target line ∧ missing target line < wordLimit)
          ∧ fault = .outOfMemory := by
  have hnonneg : 0 ≤ missing target line := le_max_right _ _
  have hword : -wordLimit < 0 := by decide
  have hcopies : padTo room target line = .error fault
      ↔ copies room (missing target line) [' '] = .error fault := map_eq_error
  rw [hcopies, copies_eq_error_iff]
  simp only [show ¬missing target line < -wordLimit by omega,
    show -wordLimit ≤ missing target line by omega, false_or, true_and]

theorem width_spaces (n : Nat) : Text.width (List.replicate n ' ') = n := by
  have hspace : charWidth ' ' = 1 := by decide
  induction n with
  | zero => rfl
  | succ n ih => rw [List.replicate_succ, width_cons, hspace, ih, Nat.add_comm]

theorem visibleWidth_filledUp (target : Int) (line : Text) :
    (visibleWidth (filledUp target line) : Int) = max target (visibleWidth line) := by
  -- spaces end no mark
  have hends : ∀ c ≠ ' ', ∀ n, c ∉ List.replicate n ' ' := fun c hc _ hmem =>
    hc (List.eq_of_mem_replicate hmem)
  unfold filledUp missing
  rw [visibleWidth_append ⟨hends 'm' (by decide) _, hends '}' (by decide) _⟩, width_spaces]
  omega

theorem filledTo_filledUp (target : Int) (line : Text) :
    FilledTo target line (filledUp target line) :=
  ⟨⟨_, rfl⟩, visibleWidth_filledUp target line⟩

/-- A line that is wide enough is short of nothing. -/
theorem missing_eq_zero {target : Int} {line : Text} (h : target ≤ visibleWidth line) :
    missing target line = 0 :=
  max_eq_right (by omega)

theorem missing_filledUp (target : Int) (line : Text) :
    missing target (filledUp target line) = 0 := by
  refine missing_eq_zero ?_
  rw [visibleWidth_filledUp]
  exact le_max_left _ _

/-- **Filling a filled line appends nothing**, and that can always be done. -/
theorem padTo_filledUp (room : Nat) (target : Int) (line : Text) :
    padTo room target (filledUp target line) = .ok (filledUp target line) := by
  rw [padTo_eq_ok_iff, missing_filledUp]
  refine ⟨copiesFit_zero room, ?_⟩
  show _ = filledUp target line ++ List.replicate (missing target (filledUp target line)).toNat ' '
  rw [missing_filledUp]
  exact (List.append_nil _).symm

/-! ## §2. The widest line. -/

/-- **The widest line is the greatest width of a line.** -/
theorem isGreatest_widest {ls : List Text} (hne : ls ≠ []) :
    IsGreatest {w | ∃ line ∈ ls, visibleWidth line = w} (widest ls) := by
  have hmax : (ls.map visibleWidth).max? = some (widest ls) := by
    cases ls with
    | nil => exact absurd rfl hne
    | cons line ls =>
      unfold widest
      rw [List.map_cons, List.max?_cons', List.foldl_cons, Nat.zero_max]
  obtain ⟨hmem, hbound⟩ := List.max?_eq_some_iff.mp hmax
  refine ⟨List.mem_map.mp hmem, ?_⟩
  rintro w ⟨line, hline, rfl⟩
  exact hbound _ (List.mem_map_of_mem hline)

/-- Filling lines up to the widest of them keeps its width. -/
theorem widest_map_filled {ls : List Text} (hne : ls ≠ []) :
    widest (ls.map (filledUp (widest ls))) = widest ls := by
  have hall : ∀ line ∈ ls, visibleWidth (filledUp (widest ls) line) = widest ls := by
    intro line hline
    have hle : visibleWidth line ≤ widest ls := (isGreatest_widest hne).2 ⟨line, hline, rfl⟩
    have hwidth := visibleWidth_filledUp (widest ls) line
    omega
  have hne' : ls.map (filledUp (widest ls)) ≠ [] := fun hnil => hne (List.map_eq_nil_iff.mp hnil)
  obtain ⟨filled, hfilled, hwidth⟩ := (isGreatest_widest hne').1
  obtain ⟨line, hline, rfl⟩ := List.mem_map.mp hfilled
  rw [← hwidth, hall line hline]

/-! ## §3. All lines. -/

/-- The width that the lines of a text are filled up to. -/
def fillTarget (t : Text) (width? : Option Int) : Int := width?.getD (widest (lines t))

variable {room : Nat} {t filled : Text} {width? : Option Int}

/-- **A text can be filled if each of its lines can.** -/
theorem fillLines_eq_ok_iff :
    fillLines room t width? = .ok filled
      ↔ (∀ line ∈ lines t, CopiesFit room (missing (fillTarget t width?) line))
        ∧ filled = unlines ((lines t).map (filledUp (fillTarget t width?))) := by
  have hall : ∀ ls, (lines t).mapM (padTo room (fillTarget t width?)) = .ok ls ↔ _ :=
    fun _ => mapM_eq_ok_iff fun _ _ => padTo_eq_ok_iff
  have hsteps : fillLines room t width? = .ok filled
      ↔ ∃ ls, (lines t).mapM (padTo room (fillTarget t width?)) = .ok ls
        ∧ Except.ok (unlines ls) = (.ok filled : Except Fault Text) := bind_eq_ok
  rw [hsteps]
  constructor
  · rintro ⟨ls, hls, hfilled⟩
    obtain ⟨hfit, rfl⟩ := (hall ls).mp hls
    exact ⟨hfit, (Except.ok.inj hfilled).symm⟩
  · rintro ⟨hfit, rfl⟩
    exact ⟨_, (hall _).mpr ⟨hfit, rfl⟩, rfl⟩

/-- **The lines of a filled text are the filled lines**, for spaces hold no newline. -/
theorem lines_of_fillLines (h : fillLines room t width? = .ok filled) :
    lines filled = (lines t).map (filledUp (fillTarget t width?)) := by
  obtain ⟨-, rfl⟩ := fillLines_eq_ok_iff.mp h
  have hone : ∀ line ∈ lines t, lines (filledUp (fillTarget t width?) line)
      = [filledUp (fillTarget t width?) line] := by
    intro line hline
    refine lines_of_notMem fun hmem => ?_
    rcases List.mem_append.mp hmem with hmem | hmem
    · exact absurd (mem_fieldsBy hline _ hmem).2 (by decide)
    · exact absurd (List.eq_of_mem_replicate hmem) (by decide)
  have hne : (lines t).map (filledUp (fillTarget t width?)) ≠ [] := fun hnil =>
    fieldsBy_ne_nil _ t (List.map_eq_nil_iff.mp hnil)
  show fields '\n' (join ['\n'] ((lines t).map (filledUp (fillTarget t width?)))) = _
  rw [fields_join hne, List.flatMap_map, List.map_eq_flatMap]
  exact List.flatMap_congr hone

theorem fillTarget_of_fillLines (h : fillLines room t width? = .ok filled) :
    fillTarget filled width? = fillTarget t width? := by
  cases width? with
  | some width => rfl
  | none =>
    show (widest (lines filled) : Int) = widest (lines t)
    rw [lines_of_fillLines h]
    exact congrArg Nat.cast (widest_map_filled (fieldsBy_ne_nil _ t))

/-- **Filling a filled text changes nothing.** -/
theorem fillLines_of_fillLines (h : fillLines room t width? = .ok filled) :
    fillLines room filled width? = .ok filled := by
  rw [fillLines_eq_ok_iff, fillTarget_of_fillLines h, lines_of_fillLines h, List.map_map]
  constructor
  · intro line hline
    obtain ⟨line, -, rfl⟩ := List.mem_map.mp hline
    rw [missing_filledUp]
    exact copiesFit_zero room
  · obtain ⟨-, hfilled⟩ := fillLines_eq_ok_iff.mp h
    rw [hfilled]
    refine congrArg unlines (List.map_congr_left fun line _ => ?_)
    exact (padTo_eq_ok_iff.mp (padTo_filledUp room _ line)).2

/-- **Lines are filled up to a common width, and nothing else is done**: the given width or else
the greatest among the lines.  Every line is filled up to it, and to fill the result again leaves
it as it is.  A text is filled exactly if the spaces of each line can be made, and else there is the
fault of the first line whose spaces cannot: more than a machine word counts, or than memory has
room for. -/
theorem fillLines_fills (room : Nat) (t : Text) (width? : Option Int) :
    ∃ target : Int,
      (∀ width ∈ width?, target = width) ∧
      (width? = none → ∃ w : Nat, target = w ∧
        IsGreatest {w | ∃ line ∈ lines t, visibleWidth line = w} w) ∧
      (∀ filled, fillLines room t width? = .ok filled →
        List.Forall₂ (FilledTo target) (lines t) (lines filled)
          ∧ fillLines room filled width? = .ok filled) ∧
      ((∃ filled, fillLines room t width? = .ok filled)
        ↔ ∀ line ∈ lines t, missing target line < wordLimit ∧ missing target line ≤ room) ∧
      ∀ fault, fillLines room t width? = .error fault
        ↔ ∃ before line after, lines t = before ++ line :: after
          ∧ (∀ l ∈ before, missing target l < wordLimit ∧ missing target l ≤ room)
          ∧ (wordLimit ≤ missing target line ∧ fault = .countTooLarge
            ∨ (room < missing target line ∧ missing target line < wordLimit)
              ∧ fault = .outOfMemory) := by
  have hfits : ∀ line, CopiesFit room (missing (fillTarget t width?) line)
      ↔ missing (fillTarget t width?) line < wordLimit
        ∧ missing (fillTarget t width?) line ≤ room := by
    intro line
    have hnonneg : 0 ≤ missing (fillTarget t width?) line := le_max_right _ _
    have hword : -wordLimit < 0 := by decide
    unfold CopiesFit
    omega
  refine ⟨fillTarget t width?, ?_, ?_, ?_, ?_, ?_⟩
  · rintro width rfl
    rfl
  · rintro rfl
    exact ⟨_, rfl, isGreatest_widest (fieldsBy_ne_nil _ t)⟩
  · intro filled h
    refine ⟨?_, fillLines_of_fillLines h⟩
    rw [lines_of_fillLines h, List.forall₂_map_right_iff, List.forall₂_same]
    exact fun line _ => filledTo_filledUp _ line
  · simp only [fillLines_eq_ok_iff, hfits, exists_and_left, exists_eq, and_true]
  · intro fault
    have hsteps : fillLines room t width? = .error fault
        ↔ (lines t).mapM (padTo room (fillTarget t width?)) = .error fault := map_eq_error
    rw [hsteps, mapM_eq_error_iff]
    simp only [padTo_eq_error_iff, padTo_eq_ok_iff, hfits, exists_and_left, exists_eq, and_true]

/-- A line of wide characters is the widest, and one that ends inside a tag is filled all the
same. -/
theorem fillLines_fills_wide :
    fillLines 80 "世界\n\x7bred\nab{red}".toList none
        = .ok "世界\n\x7bred\nab{red}  ".toList
      ∧ ∃ target : Int, List.Forall₂ (FilledTo target)
          (lines "世界\n\x7bred\nab{red}".toList) (lines "世界\n\x7bred\nab{red}  ".toList)
        ∧ fillLines 80 "世界\n\x7bred\nab{red}  ".toList none
          = .ok "世界\n\x7bred\nab{red}  ".toList := by
  have h : fillLines 80 "世界\n\x7bred\nab{red}".toList none
      = .ok "世界\n\x7bred\nab{red}  ".toList := by
    decide +kernel
  obtain ⟨target, -, -, hfills, -⟩ := fillLines_fills 80 "世界\n\x7bred\nab{red}".toList none
  exact ⟨h, target, hfills _ h⟩

/-- **No machine fills a line up to a width that no machine word holds.** -/
theorem fillLines_beyond_word :
    ¬∃ room filled, fillLines room "a".toList (some 0x8000000000000001) = .ok filled := by
  rintro ⟨room, filled, h⟩
  obtain ⟨hfit, -⟩ := fillLines_eq_ok_iff.mp h
  obtain ⟨⟨-, hword⟩, -⟩ := hfit "a".toList (by decide)
  have hmissing : missing 0x8000000000000001 "a".toList = wordLimit := by decide +kernel
  exact absurd hmissing (Int.ne_of_lt hword)

end TermMarkup.Text
