/-
  TermMarkup.Proofs.Rows
  ──────────────────────
  WHAT THE LINES OF A LAYOUT HOLD, codes left aside.  Each line is a row of
  atoms with blanks between them.  It is no wider than it may be, or a single
  atom makes it so: a layout puts an atom where it does not fit only at the
  start of a line, and then nothing that takes columns stands beside it.

    • `Row.Good` — what every row keeps,
    • `Move.fills` — a move fills the row on or begins another,
    • `Lays.fills` — a run of moves fills rows one after the other,
    • `placements_rows` — the lines of a layout are good rows, and their atoms
      are the atoms of the material.
-/
import TermMarkup.Proofs.Fields
import TermMarkup.Proofs.Words

namespace TermMarkup

/-! ## §1. Widths and ink. -/

/-- The characters of a text that are not blank. -/
def Text.ink (t : Text) : Text := t.filter fun c => !isBlank c

theorem Text.ink_append (s t : Text) : ink (s ++ t) = ink s ++ ink t := List.filter_append s t

theorem Text.ink_eq_self {t : Text} (h : ∀ c ∈ t, isBlank c = false) : ink t = t :=
  List.filter_eq_self.mpr fun c hc => by simp [h c hc]

theorem Text.ink_eq_nil {t : Text} (h : ∀ c ∈ t, isBlank c = true) : ink t = [] :=
  List.filter_eq_nil_iff.mpr fun c hc => by simp [h c hc]

theorem width_le_of_sublist {s t : Text} (h : s.Sublist t) : Text.width s ≤ Text.width t := by
  induction h with
  | slnil => exact Nat.le_refl _
  | cons c _ ih =>
    rw [Text.width_cons]
    omega
  | cons_cons c _ ih =>
    rw [Text.width_cons, Text.width_cons]
    omega

/-- Atoms are no wider than the text that holds them. -/
theorem width_atom_le {t : Text} {atoms : List Text} (h : t.ink = atoms.flatten) {atom : Text}
    (hatom : atom ∈ atoms) : Text.width atom ≤ Text.width t := by
  have hin : atom.Sublist atoms.flatten := List.sublist_flatten_of_mem hatom
  have hink : t.ink.Sublist t := List.filter_sublist
  exact width_le_of_sublist (hin.trans (h ▸ hink))

/-! ## §2. Rows. -/

/-- What a line holds: its text without codes, and the atoms in it. -/
structure Row where
  text : Text
  atoms : List Text

/-- The empty row. -/
def Row.empty : Row := ⟨[], []⟩

/-- The text has no line end and its ink is the atoms, none of which is parted; it is as narrow as
it should be, or exactly one atom takes columns and the text is as wide as that. -/
structure Row.Good (width : Int) (row : Row) : Prop where
  oneLine : '\n' ∉ row.text
  ink : row.text.ink = row.atoms.flatten
  whole : ∀ atom ∈ row.atoms, atom <:+: row.text
  bounded : (Text.width row.text : Int) ≤ max width 0
    ∨ ∃ atom, (row.atoms.filter fun a => 0 < Text.width a) = [atom]
      ∧ Text.width row.text = Text.width atom

variable {m : Measure} {width : Int} {row : Row}

theorem empty_good (width : Int) : Row.empty.Good width :=
  ⟨List.not_mem_nil, rfl, fun _ hatom => (nomatch hatom), .inl (Int.le_max_right width 0)⟩

/-- Blanks that fit may be added to a row. -/
theorem Row.Good.addBlank (h : row.Good width) {t : Text}
    (ht : ∀ c ∈ t, isBlank c = true ∧ c ≠ '\n')
    (hfits : (Text.width row.text + Text.width t : Int) ≤ width ∨ t = []) :
    Row.Good width ⟨row.text ++ t, row.atoms⟩ := by
  refine ⟨?_, ?_, fun atom hatom => ?_, ?_⟩
  · intro hmem
    rcases List.mem_append.mp hmem with hmem | hmem
    · exact h.oneLine hmem
    · exact (ht _ hmem).2 rfl
  · rw [Text.ink_append, Text.ink_eq_nil fun c hc => (ht c hc).1, List.append_nil]
    exact h.ink
  · exact (h.whole atom hatom).trans (List.prefix_append _ _).isInfix
  · rcases hfits with hfits | rfl
    · left
      rw [Text.width_append]
      push_cast
      omega
    · show ((row.text ++ []).width : Int) ≤ _ ∨ ∃ atom, _ ∧ (row.text ++ []).width = _
      rw [List.append_nil]
      exact h.bounded

/-- **An atom may be added where it fits, and to a row that takes no columns.** -/
theorem Row.Good.addAtom (h : row.Good width) {atom : Text} (hatom : ∀ c ∈ atom, isBlank c = false)
    (hfits : (Text.width row.text + Text.width atom : Int) ≤ width ∨ Text.width row.text = 0) :
    Row.Good width ⟨row.text ++ atom, row.atoms ++ [atom]⟩ := by
  refine ⟨?_, ?_, fun a ha => ?_, ?_⟩
  · intro hmem
    rcases List.mem_append.mp hmem with hmem | hmem
    · exact h.oneLine hmem
    · exact ne_newline_of_ink (hatom _ hmem) rfl
  · rw [Text.ink_append, Text.ink_eq_self hatom, h.ink, List.flatten_append, List.flatten_singleton]
  · rcases List.mem_append.mp ha with ha | ha
    · exact (h.whole a ha).trans (List.prefix_append _ _).isInfix
    · obtain rfl := List.mem_singleton.mp ha
      exact (List.suffix_append _ _).isInfix
  · rcases hfits with hfits | hzero
    · left
      rw [Text.width_append]
      push_cast
      omega
    · -- the atoms that are there take no columns, so the new one is alone
      have hnone : row.atoms.filter (fun a => 0 < Text.width a) = [] := by
        refine List.filter_eq_nil_iff.mpr fun a ha => ?_
        have hle := width_atom_le h.ink ha
        simp only [decide_eq_true_eq]
        omega
      by_cases hpos : 0 < Text.width atom
      · -- it may be as wide as it likes
        right
        refine ⟨atom, ?_, ?_⟩
        · rw [List.filter_append, hnone, List.nil_append]
          exact List.filter_cons_of_pos (by simpa using hpos)
        · rw [Text.width_append, hzero, Nat.zero_add]
      · left
        rw [Text.width_append]
        omega

/-! ## §3. Moves fill rows. -/

/-- What is put down, codes left aside. -/
def Placed.literal : Placed → Text
  | run r => r.literal
  | wrap _ => ['\n']
  | newline _ => ['\n']
  | stop _ => []

theorem flatMap_literal_run (parts : List Run) :
    (parts.map Placed.run).flatMap Placed.literal = parts.flatMap Run.literal := by
  rw [List.flatMap_map]
  rfl

variable {s s' : Spot} {w ws : List Material} {p ps : List Placed}

/-- **A move fills the row on, or ends it and takes no atom along.** -/
theorem Move.fills (h : Move m s w p s') (hw : ∀ x ∈ w, x.Proper) (hrow : row.Good m.width)
    (hcolumn : Text.width row.text = s.column) :
    (∃ next : Row, next.Good m.width ∧ Text.width next.text = s'.column
        ∧ next.text = row.text ++ p.flatMap Placed.literal
        ∧ next.atoms = row.atoms ++ w.flatMap Material.atoms)
      ∨ (p.flatMap Placed.literal = ['\n'] ∧ w.flatMap Material.atoms = [] ∧ s'.column = 0) := by
  cases h with
  | style codes active => exact .inl ⟨row, hrow, hcolumn, by simp [Placed.literal, Run.literal],
      by simp [Material.atoms]⟩
  | @keep t kept hkept hfits =>
    left
    have ht : ∀ c ∈ kept, isBlank c = true ∧ c ≠ '\n' :=
      fun c hc => hw (.blank t) List.mem_cons_self c (hkept.subset hc)
    rw [← hcolumn] at hfits ⊢
    refine ⟨⟨row.text ++ kept, row.atoms⟩, hrow.addBlank ht hfits, Text.width_append _ _, ?_, ?_⟩
    · rw [List.flatMap_singleton]
      rfl
    · exact (List.append_nil _).symm
  | drop t => exact .inl ⟨row, hrow, hcolumn, (List.append_nil _).symm, (List.append_nil _).symm⟩
  | @solid parts hfits =>
    left
    have hatom : ∀ c ∈ parts.flatMap Run.literal, isBlank c = false := by
      intro c hc
      obtain ⟨r, hr, hc⟩ := List.mem_flatMap.mp hc
      exact hw (.solid parts) List.mem_cons_self r hr c hc
    rw [runsWidth_eq, ← hcolumn] at hfits
    refine ⟨_, hrow.addAtom hatom hfits, ?_, ?_, ?_⟩
    · rw [Text.width_append, hcolumn, runsWidth_eq]
    · rw [flatMap_literal_run]
    · rw [List.flatMap_singleton]
      rfl
  | newline => exact .inr ⟨rfl, rfl, rfl⟩
  | wrap hpos => exact .inr ⟨rfl, rfl, rfl⟩

/-- The text of rows that are ended, and of the last one. -/
def rowsText (rows : List Row) (last : Row) : Text :=
  (rows.flatMap fun row => row.text ++ ['\n']) ++ last.text

/-- **A run of moves fills rows, beginning with the row that is there.** -/
theorem Lays.fills (h : Lays m s ws ps s') (hw : ∀ x ∈ ws, x.Proper) (hrow : row.Good m.width)
    (hcolumn : Text.width row.text = s.column) :
    ∃ rows last, row.text ++ ps.flatMap Placed.literal = rowsText rows last
      ∧ row.atoms ++ ws.flatMap Material.atoms = (rows ++ [last]).flatMap Row.atoms
      ∧ ∀ r ∈ rows ++ [last], r.Good m.width := by
  -- on the run, for any row it begins with: each move hands on the row that it leaves
  induction h generalizing row with
  | stay s =>
    refine ⟨[], row, List.append_nil _, ?_, ?_⟩
    · exact (List.append_nil _).trans (List.append_nil _).symm
    · intro r hr
      obtain rfl := List.mem_singleton.mp hr
      exact hrow
  | @move s s' s'' w ws p ps hmove _ ih =>
    have hfirst := fun x hx => hw x (List.mem_append_left ws hx)
    have hrest := fun x hx => hw x (List.mem_append_right w hx)
    rw [List.flatMap_append, List.flatMap_append, ← List.append_assoc, ← List.append_assoc]
    rcases hmove.fills hfirst hrow hcolumn with
      ⟨next, hgood, hwidth, htext, hatoms⟩ | ⟨htext, hatoms, hzero⟩
    · -- the row goes on
      rw [← htext, ← hatoms]
      exact ih hrest hgood hwidth
    · -- the row is ended, and what follows begins with an empty one
      obtain ⟨rows, last, hlater, hmore, hall⟩ := ih hrest (empty_good m.width) hzero.symm
      refine ⟨row :: rows, last, ?_, ?_, ?_⟩
      · rw [htext]
        show (row.text ++ ['\n']) ++ (Row.empty.text ++ ps.flatMap Placed.literal) = _
        rw [hlater]
        exact (List.append_assoc _ _ _).symm
      · rw [hatoms, List.append_nil, List.cons_append, List.flatMap_cons, ← hmore]
        rfl
      · intro r hr
        rcases List.mem_cons.mp hr with rfl | hr
        · exact hrow
        · exact hall r hr

/-- The lines of rows. -/
theorem lines_rowsText {rows : List Row} {last : Row} (h : ∀ r ∈ rows ++ [last], '\n' ∉ r.text) :
    Text.lines (rowsText rows last) = (rows ++ [last]).map Row.text := by
  have htexts : rowsText rows last
      = ((rows.map Row.text).flatMap fun t => t ++ ['\n']) ++ last.text := by
    rw [List.flatMap_map]
    rfl
  have hended : ∀ t ∈ rows.map Row.text, '\n' ∉ t :=
    List.forall_mem_map.mpr fun r hr => h r (List.mem_append_left _ hr)
  rw [htexts, Text.lines_ended hended, Text.lines_of_notMem (h last (by simp)), List.map_append]
  rfl

/-- **The lines of a layout are good rows**, and their atoms are the atoms of the material. -/
theorem placements_rows (m : Measure) (rs : List Run) :
    ∃ rows : List Row,
      Text.lines ((placements m rs).flatMap Placed.literal) = rows.map Row.text
        ∧ rows.flatMap Row.atoms = (materialOf m.threshold rs).flatMap Material.atoms
        ∧ ∀ row ∈ rows, row.Good m.width := by
  obtain ⟨ps, s, hplaced, hlays⟩ := placements_lays m rs
  obtain ⟨rows, last, htext, hatoms, hall⟩ :=
    hlays.fills (materialOf_proper m.threshold rs) (empty_good m.width) rfl
  have hliteral : (placements m rs).flatMap Placed.literal = rowsText rows last := by
    rw [hplaced, List.flatMap_append, ← htext]
    exact List.append_nil _
  refine ⟨rows ++ [last], ?_, hatoms.symm, hall⟩
  rw [hliteral]
  exact lines_rowsText fun r hr => (hall r hr).oneLine

end TermMarkup
