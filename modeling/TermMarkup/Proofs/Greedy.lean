/-
  TermMarkup.Proofs.Greedy
  ────────────────────────
  A LAYOUT IS GREEDY.  Where it puts in line ends depends on three numbers: the
  line ends so far, the columns taken in the line, and the columns of the blanks
  that wait.  This TALLY goes from one piece of material to the next: blanks
  wait, and a solid piece is put behind them if all of it fits; if not, a line
  that has columns is ended before it.

    • `Tally.room`, `Tally.take` — the tally after a piece of material,
    • `makeRoom_tally`, `placeCluster_tally` — what single steps do to a tally,
    • `ofUnit_tally` — a unit does what its material does,
    • `Lays.count_newline` — the line ends of a layout are its newlines,
    • `placements_lines` — the number of lines of a layout.
-/
import TermMarkup.Proofs.Compiled
import TermMarkup.Proofs.Rows

namespace TermMarkup

/-! ## §1. Tallies. -/

/-- What decides about line ends. -/
structure Tally where
  /-- The line ends that the layout has put in. -/
  breaks : Nat
  /-- The columns taken in the line. -/
  column : Nat
  /-- The columns of the blanks that wait. -/
  gap : Nat

namespace Tally

/-- Nothing done yet. -/
def start : Tally := ⟨0, 0, 0⟩

/-- Makes room for `next` columns: blanks that fit along with them are placed; else they go, and a
line that has columns is ended. -/
def room (width : Int) (next : Nat) (T : Tally) : Tally :=
  if (T.column + T.gap + next : Int) ≤ width then ⟨T.breaks, T.column + T.gap, 0⟩
  else if 0 < T.column then ⟨T.breaks + 1, 0, 0⟩
  else ⟨T.breaks, 0, 0⟩

/-- Takes columns in the line. -/
def add (columns : Nat) (T : Tally) : Tally := { T with column := T.column + columns }

/-- Puts something solid behind the blanks. -/
def put (width : Int) (columns : Nat) (T : Tally) : Tally := (T.room width columns).add columns

/-- Adds to the blanks that wait. -/
def wait (columns : Nat) (T : Tally) : Tally := { T with gap := T.gap + columns }

variable {width : Int} {next : Nat} {T : Tally}

/-- **What room can be.** -/
theorem room_cases (width : Int) (next : Nat) (T : Tally) :
    ((T.column + T.gap + next : Int) ≤ width
        ∧ T.room width next = ⟨T.breaks, T.column + T.gap, 0⟩)
      ∨ (width < T.column + T.gap + next ∧ 0 < T.column
        ∧ T.room width next = ⟨T.breaks + 1, 0, 0⟩)
      ∨ (width < T.column + T.gap + next ∧ T.column = 0
        ∧ T.room width next = ⟨T.breaks, 0, 0⟩) := by
  unfold room
  split
  · next h => exact .inl ⟨h, rfl⟩
  · next h =>
    split
    · next hpos => exact .inr (.inl ⟨by omega, hpos, rfl⟩)
    · next hpos => exact .inr (.inr ⟨by omega, by omega, rfl⟩)

theorem room_gap : (T.room width next).gap = 0 := by
  rcases room_cases width next T with ⟨-, h⟩ | ⟨-, -, h⟩ | ⟨-, -, h⟩ <;> rw [h]

/-- Room that was made is not made again. -/
theorem room_room : (T.room width next).room width next = T.room width next := by
  rcases room_cases width next T with ⟨hfits, h⟩ | ⟨-, -, h⟩ | ⟨-, -, h⟩
  · rw [h]
    refine if_pos ?_
    push_cast
    omega
  · -- at the start of a line there is nothing to end
    rw [h]
    unfold room
    dsimp only
    rw [if_neg (Nat.lt_irrefl 0)]
    exact ite_self _
  · rw [h]
    unfold room
    dsimp only
    rw [if_neg (Nat.lt_irrefl 0)]
    exact ite_self _

theorem put_gap : (T.put width next).gap = 0 := room_gap

end Tally

/-- The literal text of a piece of material. -/
def Material.text (w : Material) : Text := w.runs.flatMap Run.literal

/-- The tally after a piece of material: what is solid is put, all else waits. -/
def Tally.take (width : Int) (T : Tally) : Material → Tally
  | .solid parts => T.put width (runsWidth parts)
  | w => T.wait (Text.width w.text)

/-! ## §2. Tallies of steps. -/

/-- Whether a line ends here. -/
def Placed.endsLine : Placed → Bool
  | run _ => false
  | wrap _ => true
  | newline _ => true
  | stop _ => false

/-- The number of line ends. -/
def lineEnds (ps : List Placed) : Nat := ps.countP Placed.endsLine

theorem lineEnds_append (ps qs : List Placed) : lineEnds (ps ++ qs) = lineEnds ps + lineEnds qs :=
  List.countP_append

theorem lineEnds_runs (parts : List Run) : lineEnds (parts.map .run) = 0 := by
  unfold lineEnds
  rw [List.countP_map]
  exact List.countP_eq_zero.mpr fun r _ => Bool.false_ne_true

/-- The tally of a cursor, with the line ends so far. -/
def Cursor.tally (breaks : Nat) (c : Cursor) : Tally := ⟨breaks, c.column, runsWidth c.pending⟩

namespace Step

/-- The tally after a step, with the line ends before it. -/
def tally (step : Step) (breaks : Nat) (c : Cursor) : Tally :=
  (step c).2.tally (breaks + lineEnds (step c).1)

variable {m : Measure} {c : Cursor}

/-- Steps that do the same from a cursor have the same tally there. -/
theorem tally_congr {step step' : Step} (h : step c = step' c) (breaks : Nat) :
    step.tally breaks c = step'.tally breaks c := by
  unfold tally
  rw [h]

theorem andThen_tally (first second : Step) (breaks : Nat) (c : Cursor) :
    (andThen first second).tally breaks c
      = second.tally (breaks + lineEnds (first c).1) (first c).2 := by
  show (second (first c).2).2.tally (breaks + lineEnds ((first c).1 ++ (second (first c).2).1)) = _
  rw [lineEnds_append, ← Nat.add_assoc]
  rfl

/-- Runs that are placed take their columns. -/
theorem each_place_tally (parts : List Run) (breaks : Nat) (c : Cursor) :
    (each place parts).tally breaks c = (c.tally breaks).add (runsWidth parts) := by
  unfold tally
  rw [each_place]
  show Cursor.tally (breaks + lineEnds (parts.map .run)) _ = _
  rw [lineEnds_runs]
  rfl

theorem runsWidth_styles (rs : List Run) : runsWidth (rs.filter fun r => !r.isText) = 0 := by
  induction rs with
  | nil => rfl
  | cons r rs ih =>
    cases r with
    | text t => exact ih
    | style codes active =>
      show 0 + runsWidth (rs.filter fun r => !r.isText) = 0
      rw [ih]

/-- Without the blanks that wait, the line stays as wide as it is. -/
theorem dropPendingBlanks_tally (breaks : Nat) (c : Cursor) :
    dropPendingBlanks.tally breaks c = ⟨breaks, c.column, 0⟩ := by
  show (each place (c.pending.filter fun r => !r.isText)).tally breaks { c with pending := [] } = _
  rw [each_place_tally, runsWidth_styles]
  rfl

theorem wrap_tally (breaks : Nat) (c : Cursor) : wrap.tally breaks c = ⟨breaks + 1, 0, 0⟩ := by
  have hdrop := dropPendingBlanks_tally breaks c
  unfold tally Cursor.tally at hdrop
  obtain ⟨hbreaks, -, hgap⟩ := Tally.mk.inj hdrop
  unfold wrap
  rw [andThen_tally, hbreaks]
  show Tally.mk (breaks + 1) 0 (runsWidth (dropPendingBlanks c).2.pending) = _
  rw [hgap]

/-- **Making room is making room in the tally.** -/
theorem makeRoom_tally (m : Measure) (next breaks : Nat) (c : Cursor) :
    (makeRoom m next).tally breaks c = (c.tally breaks).room m.width next := by
  have hfits : fits m c (runsWidth c.pending + next) = true
      ↔ (c.column + runsWidth c.pending + next : Int) ≤ m.width := by
    unfold fits
    rw [decide_eq_true_eq]
    push_cast
    rw [Int.add_assoc]
  unfold Tally.room
  show _ = if (c.column + runsWidth c.pending + next : Int) ≤ m.width then _
    else if 0 < c.column then _ else _
  split
  · next h =>
    have hcommit : makeRoom m next c = commitPending c := if_pos (hfits.mpr h)
    rw [tally_congr hcommit]
    exact each_place_tally c.pending breaks { c with pending := [] }
  · next h =>
    have hnot : ¬fits m c (runsWidth c.pending + next) = true := fun hf => h (hfits.mp hf)
    split
    · next hcolumn =>
      have hwrap : makeRoom m next c = wrap c := (if_neg hnot).trans (if_pos hcolumn)
      rw [tally_congr hwrap, wrap_tally]
      rfl
    · next hcolumn =>
      have hdrop : makeRoom m next c = dropPendingBlanks c :=
        (if_neg hnot).trans (if_neg hcolumn)
      rw [tally_congr hdrop, dropPendingBlanks_tally, Nat.eq_zero_of_not_pos hcolumn]
      rfl

/-- A cluster is put as what is solid is, if what waits takes no columns. -/
theorem placeCluster_tally (cluster : Text) (breaks : Nat) (hgap : runsWidth c.pending = 0) :
    (placeCluster m cluster).tally breaks c
      = (c.tally breaks).put m.width (Text.width cluster) := by
  have hfits : fits m c (Text.width cluster) = true
      ↔ (c.column + runsWidth c.pending + Text.width cluster : Int) ≤ m.width := by
    unfold fits
    rw [decide_eq_true_eq, hgap]
    push_cast
    rw [Int.add_zero]
  have hplace : ∀ b c, (place (.text cluster)).tally b c = (c.tally b).add (Text.width cluster) :=
    fun b c => each_place_tally [.text cluster] b c
  unfold Tally.put
  by_cases hend : 0 < c.column ∧ ¬fits m c (Text.width cluster) = true
  · obtain ⟨hcolumn, hnot⟩ := hend
    have hwrap : placeCluster m cluster c = andThen wrap (place (.text cluster)) c :=
      if_pos (by simp [hcolumn, hnot])
    have hroom : (c.tally breaks).room m.width (Text.width cluster) = ⟨breaks + 1, 0, 0⟩ :=
      (if_neg fun h => hnot (hfits.mpr h)).trans (if_pos hcolumn)
    rw [tally_congr hwrap, andThen_tally, hplace, hroom]
    show (wrap.tally breaks c).add _ = _
    rw [wrap_tally]
  · have hfirst : placeCluster m cluster c = place (.text cluster) c :=
      if_neg (by simpa using hend)
    -- no blank waits, so the tally makes no room either
    have hroom : (c.tally breaks).room m.width (Text.width cluster) = c.tally breaks := by
      have htally : c.tally breaks = ⟨breaks, c.column, 0⟩ := by
        unfold Cursor.tally
        rw [hgap]
      have hnot : ¬(0 < c.column ∧ ¬(c.column + runsWidth c.pending + Text.width cluster : Int)
          ≤ m.width) := by
        rwa [hfits] at hend
      rcases Tally.room_cases m.width (Text.width cluster) (c.tally breaks) with
        ⟨-, h⟩ | ⟨hwide, hcolumn, -⟩ | ⟨-, hcolumn, h⟩
      · rw [h, htally]
        rfl
      · exact absurd ⟨hcolumn, Int.not_le.mpr hwide⟩ hnot
      · rw [h, htally, show c.column = 0 from hcolumn]
    rw [tally_congr hfirst, hplace, hroom]

/-! ## §3. Units. -/

theorem take_style (width : Int) (T : Tally) (codes : Text) (active : List Entry) :
    T.take width (.style codes active) = T := rfl

/-- Runs that wait add to the blanks that wait. -/
theorem foldl_take_waiting (width : Int) (T : Tally) (parts : List Run) :
    (parts.map Run.waiting).foldl (Tally.take width) T = T.wait (runsWidth parts) := by
  induction parts generalizing T with
  | nil => rfl
  | cons r parts ih =>
    rw [List.map_cons, List.foldl_cons, ih]
    have hone : T.take width r.waiting = T.wait r.width := by
      cases r with
      | text t =>
        show T.wait (Text.width ([Run.text t].flatMap Run.literal)) = _
        rw [List.flatMap_singleton]
        rfl
      | style codes active => rfl
    rw [hone]
    show Tally.mk _ _ (T.gap + r.width + runsWidth parts)
      = Tally.mk _ _ (T.gap + (r.width + runsWidth parts))
    rw [Nat.add_assoc]
    rfl

/-- The material of a part of a dense word leaves no blank waiting. -/
theorem foldl_take_loose_gap (width : Int) (r : Run) {T : Tally} (hT : T.gap = 0) :
    (r.loose.foldl (Tally.take width) T).gap = 0 := by
  cases r with
  | style codes active => exact hT
  | text t =>
    show (((Text.clusters t).map fun cluster => Material.solid [.text cluster]).foldl
      (Tally.take width) T).gap = 0
    generalize Text.clusters t = clusters
    induction clusters generalizing T with
    | nil => exact hT
    | cons cluster clusters ih => exact ih Tally.put_gap

/-- Clusters are put one after the other. -/
theorem placeClusters_tally (clusters : List Text) (breaks : Nat)
    (hgap : runsWidth c.pending = 0) :
    (each (placeCluster m) clusters).tally breaks c
      = (clusters.map fun cluster => Material.solid [.text cluster]).foldl (Tally.take m.width)
        (c.tally breaks) := by
  induction clusters generalizing breaks c with
  | nil => rfl
  | cons cluster clusters ih =>
    have hfirst := placeCluster_tally (m := m) cluster breaks hgap
    have hzero := (congrArg Tally.gap hfirst).trans Tally.put_gap
    show (andThen (placeCluster m cluster) (each (placeCluster m) clusters)).tally breaks c = _
    rw [andThen_tally, ih _ hzero, List.map_cons, List.foldl_cons]
    exact congrArg (fun T => List.foldl (Tally.take m.width) T _) hfirst

/-- **The parts of a dense word are put cluster by cluster**, once there is room. -/
theorem placeDense_tally {parts : List Run} (breaks : Nat) (hgap : runsWidth c.pending = 0) :
    (each (placeDense m) parts).tally breaks c
      = (parts.flatMap Run.loose).foldl (Tally.take m.width) (c.tally breaks) := by
  induction parts generalizing breaks c with
  | nil => rfl
  | cons r parts ih =>
    have hfirst : (placeDense m r).tally breaks c
        = r.loose.foldl (Tally.take m.width) (c.tally breaks) := by
      cases r with
      | style codes active => rfl
      | text t => exact placeClusters_tally (Text.clusters t) breaks hgap
    -- no blank waits after the part, so the next one is put the same way
    have hzero := (congrArg Tally.gap hfirst).trans (foldl_take_loose_gap m.width r hgap)
    show (andThen (placeDense m r) (each (placeDense m) parts)).tally breaks c = _
    rw [andThen_tally, ih _ hzero, List.flatMap_cons, List.foldl_append]
    exact congrArg (fun T => List.foldl (Tally.take m.width) T _) hfirst

/-- The room that is made for a dense word is the room that its first cluster makes. -/
theorem foldl_take_room {parts : List Run} (htext : parts.any Run.isText = true)
    (hne : ∀ t ∈ textsOf parts, t ≠ []) (width : Int) (T : Tally) :
    (parts.flatMap Run.loose).foldl (Tally.take width)
        (T.room width (firstClusterWidth parts))
      = (parts.flatMap Run.loose).foldl (Tally.take width) T := by
  induction parts with
  | nil => exact nomatch htext
  | cons r parts ih =>
    rw [List.flatMap_cons]
    cases r with
    | style codes active =>
      -- a style neither makes room nor takes columns
      have hsame : firstClusterWidth (.style codes active :: parts) = firstClusterWidth parts := rfl
      have hloose : (Run.style codes active).loose = [.style codes active] := rfl
      rw [hsame, hloose, List.singleton_append, List.foldl_cons, List.foldl_cons, take_style,
        take_style]
      exact ih htext hne
    | text t =>
      have ht : t ≠ [] := hne t List.mem_cons_self
      obtain ⟨c, t, rfl⟩ := List.exists_cons_of_ne_nil ht
      obtain ⟨first, rest, hclusters⟩ := List.exists_cons_of_ne_nil
        (show Text.clusters (c :: t) ≠ [] from List.cons_ne_nil _ _)
      have hwidth : firstClusterWidth (.text (c :: t) :: parts) = Text.width first := by
        show Text.width ((Text.clusters (c :: t)).headD []) = _
        rw [hclusters]
        rfl
      have hloose : (Run.text (c :: t)).loose = .solid [.text first]
          :: rest.map fun cluster => .solid [.text cluster] := by
        show (Text.clusters (c :: t)).map (fun cluster => Material.solid [.text cluster]) = _
        rw [hclusters]
        rfl
      have hput : ∀ T : Tally, T.take width (.solid [.text first])
          = T.put width (Text.width first) := fun T => rfl
      rw [hwidth, hloose, List.cons_append, List.foldl_cons, List.foldl_cons, hput, hput]
      unfold Tally.put
      rw [Tally.room_room]

/-- Runs that are left waiting wait in the tally. -/
theorem waiting_tally (width : Int) (rs : List Run) (breaks : Nat) (c : Cursor) :
    Step.tally (fun c => ([], { c with pending := c.pending ++ rs })) breaks c
      = (rs.map Run.waiting).foldl (Tally.take width) (c.tally breaks) := by
  rw [foldl_take_waiting]
  show Tally.mk breaks c.column (runsWidth (c.pending ++ rs)) = _
  rw [runsWidth_append]
  rfl

/-- A word that is not dense is put as a whole. -/
theorem solid_tally (m : Measure) (parts : List Run) (breaks : Nat) (c : Cursor) :
    (andThen (makeRoom m (runsWidth parts)) (each place parts)).tally breaks c
      = (c.tally breaks).take m.width (.solid parts) := by
  rw [andThen_tally, each_place_tally]
  exact congrArg (Tally.add _) (makeRoom_tally m (runsWidth parts) breaks c)

/-- A dense word is put cluster by cluster. -/
theorem dense_tally {parts : List Run} (htext : parts.any Run.isText = true)
    (hne : ∀ t ∈ textsOf parts, t ≠ []) (m : Measure) (breaks : Nat) (c : Cursor) :
    (andThen (makeRoom m (firstClusterWidth parts)) (each (placeDense m) parts)).tally breaks c
      = (parts.flatMap Run.loose).foldl (Tally.take m.width) (c.tally breaks) := by
  have hroom := makeRoom_tally m (firstClusterWidth parts) breaks c
  have hgap := (congrArg Tally.gap hroom).trans Tally.room_gap
  rw [andThen_tally, placeDense_tally _ hgap,
    ← foldl_take_room htext hne m.width (c.tally breaks)]
  exact congrArg (fun T => List.foldl (Tally.take m.width) T _) hroom

/-- **A unit does to a tally what its material does**, apart from the newlines of the text. -/
theorem ofUnit_tally {u : LayoutUnit} (hu : u ≠ .newline)
    (hne : ∀ parts, u = .word parts → ∀ t ∈ textsOf parts, t ≠ []) (m : Measure) (breaks : Nat)
    (c : Cursor) :
    (ofUnit m u).tally breaks c
      = (u.material m.threshold).foldl (Tally.take m.width) (c.tally breaks) := by
  cases u with
  | newline => exact absurd rfl hu
  | blank t => exact waiting_tally m.width [.text t] breaks c
  | word parts =>
    unfold LayoutUnit.material ofUnit
    dsimp only
    split
    · exact waiting_tally m.width parts breaks c
    · next htext =>
      have hsome : parts.any Run.isText = true := by simpa using htext
      split
      · exact dense_tally hsome (hne parts rfl) m breaks c
      · exact solid_tally m parts breaks c

theorem each_ofUnit_tally {units : List LayoutUnit} (hu : ∀ u ∈ units, u ≠ .newline)
    (hne : ∀ parts, LayoutUnit.word parts ∈ units → ∀ t ∈ textsOf parts, t ≠ []) (m : Measure)
    (breaks : Nat) (c : Cursor) :
    (each (ofUnit m) units).tally breaks c
      = (units.flatMap (LayoutUnit.material m.threshold)).foldl (Tally.take m.width)
        (c.tally breaks) := by
  induction units generalizing breaks c with
  | nil => rfl
  | cons u units ih =>
    have hfirst := ofUnit_tally (hu u List.mem_cons_self)
      (fun parts heq => hne parts (heq ▸ List.mem_cons_self)) m breaks c
    show (andThen (ofUnit m u) (each (ofUnit m) units)).tally breaks c = _
    rw [andThen_tally, ih (fun x hx => hu x (List.mem_cons_of_mem _ hx))
      (fun parts hmem => hne parts (List.mem_cons_of_mem _ hmem)), List.flatMap_cons,
      List.foldl_append]
    exact congrArg (fun T => List.foldl (Tally.take m.width) T _) hfirst

theorem lineEnds_flushPending (m : Measure) (c : Cursor) : lineEnds (flushPending m c).1 = 0 := by
  have hall : ∀ (rs : List Run) (c : Cursor), lineEnds (each (placeTrailing m) rs c).1 = 0 := by
    intro rs
    induction rs with
    | nil => exact fun c => rfl
    | cons r rs ih =>
      intro c
      have hone : lineEnds (placeTrailing m r c).1 = 0 := by cases r <;> rfl
      show lineEnds ((placeTrailing m r c).1 ++ (each (placeTrailing m) rs _).1) = 0
      rw [lineEnds_append, hone, ih]
  exact hall c.pending { c with pending := [] }

end Step

/-! ## §4. The lines of a layout. -/

/-- **The line ends of a layout are those of the tally**, if the text has no newlines of its own. -/
theorem lineEnds_placements {rs : List Run} (hline : '\n' ∉ rs.flatMap Run.literal) (m : Measure) :
    lineEnds (placements m rs)
      = ((materialOf m.threshold rs).foldl (Tally.take m.width) .start).breaks := by
  have hunits : ∀ u ∈ LayoutUnit.ofRuns [] rs, u ≠ .newline := by
    rintro u hu rfl
    have hitem : Item.char '\n' ∈ LayoutUnit.items (LayoutUnit.ofRuns [] rs) := by
      refine List.mem_flatMap.mpr ⟨.text ['\n'], List.mem_flatMap.mpr ⟨_, hu, ?_⟩, ?_⟩
      · exact List.mem_singleton.mpr rfl
      · exact List.mem_singleton.mpr rfl
    rw [ofRuns_items, List.nil_append] at hitem
    obtain ⟨r, hr, hitem⟩ := List.mem_flatMap.mp hitem
    cases r with
    | text t =>
      obtain ⟨c, hc, heq⟩ := List.mem_map.mp hitem
      obtain rfl := Item.char.inj heq
      exact hline (List.mem_flatMap.mpr ⟨.text t, hr, hc⟩)
    | style codes active => exact nomatch List.mem_singleton.mp hitem
  have hall := Step.each_ofUnit_tally hunits (fun parts => unit_text_ne_nil) m 0 Cursor.start
  have hbreaks := congrArg Tally.breaks hall
  have hzero : 0 + lineEnds (Step.each (Step.ofUnit m) (LayoutUnit.ofRuns [] rs) Cursor.start).1
      = ((materialOf m.threshold rs).foldl (Tally.take m.width) .start).breaks := hbreaks
  rw [Nat.zero_add] at hzero
  have hflush := Step.lineEnds_flushPending m
    (Step.each (Step.ofUnit m) (LayoutUnit.ofRuns [] rs) Cursor.start).2
  -- at the end the blanks that wait are placed, and no line is ended
  show lineEnds (_ ++ ((Step.flushPending m _).1 ++ [Placed.stop _])) = _
  rw [lineEnds_append, lineEnds_append, hflush, hzero]
  rfl

/-- A text has one line more than newlines. -/
theorem length_lines (t : Text) : (Text.lines t).length = t.count '\n' + 1 := by
  induction t with
  | nil => rfl
  | cons c t ih =>
    by_cases hc : c = '\n'
    · rw [hc, lines_newline, List.length_cons, ih, List.count_cons_self]
    · have hone : '\n' ∉ [c] := by simpa using Ne.symm hc
      obtain ⟨first, rest, hlines, hjoined⟩ := lines_append hone t
      rw [hlines, List.length_cons] at ih
      show (Text.lines ([c] ++ t)).length = _
      rw [hjoined, List.length_cons, ih, List.count_cons_of_ne hc]

variable {m : Measure} {s s' : Spot} {w ws : List Material} {p ps : List Placed}

/-- The newlines that a move puts down are its line ends. -/
theorem Move.count_newline (h : Move m s w p s') (hw : ∀ x ∈ w, x.Proper) :
    (p.flatMap Placed.literal).count '\n' = lineEnds p := by
  cases h with
  | style codes active => rfl
  | @keep t kept hkept hfits =>
    have ht : (Material.blank t).Proper := hw _ List.mem_cons_self
    rw [List.flatMap_singleton]
    exact List.count_eq_zero_of_not_mem fun hmem => (ht _ (hkept.subset hmem)).2 rfl
  | drop t => rfl
  | @solid parts hfits =>
    have hparts : (Material.solid parts).Proper := hw _ List.mem_cons_self
    rw [flatMap_literal_run, lineEnds_runs]
    refine List.count_eq_zero_of_not_mem fun hmem => ?_
    obtain ⟨r, hr, hmem⟩ := List.mem_flatMap.mp hmem
    exact ne_newline_of_ink (hparts r hr _ hmem) rfl
  | newline => rfl
  | wrap hcolumn => rfl

/-- **The newlines that a run of moves puts down are its line ends.** -/
theorem Lays.count_newline (h : Lays m s ws ps s') (hw : ∀ x ∈ ws, x.Proper) :
    (ps.flatMap Placed.literal).count '\n' = lineEnds ps := by
  induction h with
  | stay s => rfl
  | move hmove _ ih =>
    rw [List.flatMap_append, List.count_append, lineEnds_append,
      hmove.count_newline fun x hx => hw x (List.mem_append_left _ hx),
      ih fun x hx => hw x (List.mem_append_right _ hx)]

/-- **The number of lines of what is put down.** -/
theorem placements_lines {rs : List Run} (hline : '\n' ∉ rs.flatMap Run.literal) (m : Measure) :
    (Text.lines ((placements m rs).flatMap Placed.literal)).length
      = ((materialOf m.threshold rs).foldl (Tally.take m.width) .start).breaks + 1 := by
  obtain ⟨ps, s, hplaced, hlays⟩ := placements_lays m rs
  have hcount := hlays.count_newline (materialOf_proper m.threshold rs)
  rw [length_lines, ← lineEnds_placements hline, hplaced, List.flatMap_append, List.count_append,
    hcount, lineEnds_append]
  rfl

end TermMarkup
