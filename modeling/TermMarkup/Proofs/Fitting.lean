/-
  TermMarkup.Proofs.Fitting
  ─────────────────────────
  TEXT THAT FITS IS LAID OUT AS IT IS.  Where no line of a text runs beyond the
  width, a layout never wraps, drops no blank and cuts no blanks off: it writes
  every item in its place, and adds only what ends the lines of the text itself.
  The threshold does not matter, since a dense word that fits is not broken.

    • `Item.Fits`, `Item.laid` — items that fit, and what is written for them,
    • `Step.Keeps` — a step that loses nothing of what it is given,
    • `ofUnit_keeps` — a unit that fits is kept,
    • `layout_of_fits` — items that fit are written one after the other,
    • `fits_of_lines` — items fit if the lines of their text do,
    • `laid_eq_written` — and nothing is added where no style is open at the ends
      of lines.
-/
import TermMarkup.Proofs.Compiled
import TermMarkup.Proofs.Rows

namespace TermMarkup

/-! ## §1. Items that fit. -/

namespace Item

/-- From a column on, no line of the items runs beyond the width. -/
def Fits (width : Int) : (column : Nat) → List Item → Prop
  | column, [] => (column : Int) ≤ width
  | column, char c :: rest =>
    if c = '\n' then (column : Int) ≤ width ∧ Fits width 0 rest
    else Fits width (column + charWidth c) rest
  | column, style _ _ :: rest => Fits width column rest

/-- What is written for items that fit: the ends of lines close and open the styles that are
open. -/
def laid (active : List Entry) : List Item → Text
  | [] => Text.ending active
  | char c :: rest =>
    if c = '\n' then Text.ending active ++ '\n' :: openings active ++ laid active rest
    else c :: laid active rest
  | style codes next :: rest => codes ++ laid next rest

/-- An item as it is written. -/
def written : Item → Text
  | char c => [c]
  | style codes _ => codes

variable {width : Int} {column : Nat} {active : List Entry}

theorem Fits.column_le {items : List Item} (h : Fits width column items) :
    (column : Int) ≤ width := by
  induction items generalizing column with
  | nil => exact h
  | cons x items ih =>
    cases x with
    | char c =>
      unfold Fits at h
      split at h
      · exact h.1
      · have := ih h
        omega
    | style codes next => exact ih h

theorem fits_chars {t : Text} (ht : '\n' ∉ t) (rest : List Item) :
    Fits width column (t.map char ++ rest) ↔ Fits width (column + Text.width t) rest := by
  induction t generalizing column with
  | nil => exact Iff.rfl
  | cons c t ih =>
    have hc : c ≠ '\n' := fun heq => ht (heq ▸ List.mem_cons_self)
    show (if c = '\n' then _ else Fits width (column + charWidth c) (t.map char ++ rest)) ↔ _
    rw [if_neg hc, ih fun hmem => ht (List.mem_cons_of_mem _ hmem), Text.width_cons, Nat.add_assoc]

theorem laid_chars {t : Text} (ht : '\n' ∉ t) (rest : List Item) :
    laid active (t.map char ++ rest) = t ++ laid active rest := by
  induction t with
  | nil => rfl
  | cons c t ih =>
    have hc : c ≠ '\n' := fun heq => ht (heq ▸ List.mem_cons_self)
    show (if c = '\n' then _ else c :: laid active (t.map char ++ rest)) = _
    rw [if_neg hc, ih fun hmem => ht (List.mem_cons_of_mem _ hmem)]
    rfl

end Item

/-! ## §2. Runs of one line. -/

/-- The runs hold no line end. -/
def OneLine (rs : List Run) : Prop := ∀ r ∈ rs, '\n' ∉ r.literal

theorem OneLine.append {rs rs' : List Run} (h : OneLine rs) (h' : OneLine rs') :
    OneLine (rs ++ rs') :=
  List.forall_mem_append.mpr ⟨h, h'⟩

theorem fits_runs {width : Int} {column : Nat} {rs : List Run} (hrs : OneLine rs)
    (rest : List Item) :
    Item.Fits width column (rs.flatMap Run.items ++ rest)
      ↔ Item.Fits width (column + runsWidth rs) rest := by
  induction rs generalizing column with
  | nil => exact Iff.rfl
  | cons r rs ih =>
    have hrs' : OneLine rs := fun r' hr' => hrs r' (List.mem_cons_of_mem _ hr')
    rw [List.flatMap_cons, List.append_assoc]
    show _ ↔ Item.Fits width (column + (r.width + runsWidth rs)) rest
    rw [← Nat.add_assoc, ← ih hrs']
    cases r with
    | text t => exact Item.fits_chars (hrs _ List.mem_cons_self) _
    | style codes next => exact Iff.rfl

theorem laid_runs {active : List Entry} {rs : List Run} (hrs : OneLine rs) (rest : List Item) :
    Item.laid active (rs.flatMap Run.items ++ rest)
      = rs.flatMap Run.written ++ Item.laid (rs.foldl Run.after active) rest := by
  induction rs generalizing active with
  | nil => rfl
  | cons r rs ih =>
    have hrs' : OneLine rs := fun r' hr' => hrs r' (List.mem_cons_of_mem _ hr')
    rw [List.flatMap_cons, List.append_assoc, List.flatMap_cons, List.append_assoc,
      List.foldl_cons, ← ih hrs']
    cases r with
    | text t => exact Item.laid_chars (hrs _ List.mem_cons_self) _
    | style codes next => rfl

/-! ## §3. Steps that lose nothing. -/

namespace Step

variable {m : Measure} {c : Cursor}

theorem andThen_apply (first second : Step) (c : Cursor) :
    andThen first second c
      = ((first c).1 ++ (second (first c).2).1, (second (first c).2).2) := rfl

theorem each_cons {α : Type} (step : α → Step) (x : α) (xs : List α) (c : Cursor) :
    each step (x :: xs) c
      = ((step x c).1 ++ (each step xs (step x c).2).1, (each step xs (step x c).2).2) := rfl

/-- From the cursor `c`, the step puts down the runs that wait and the runs `rs`, or leaves them
waiting, all of them and in their order. -/
structure Keeps (step : Step) (c : Cursor) (rs : List Run) : Prop where
  written : (step c).1.flatMap Placed.written ++ (step c).2.pending.flatMap Run.written
    = (c.pending ++ rs).flatMap Run.written
  column : (step c).2.column + runsWidth (step c).2.pending
    = c.column + runsWidth (c.pending ++ rs)
  active : (step c).2.pending.foldl Run.after (step c).2.active
    = (c.pending ++ rs).foldl Run.after c.active
  waiting : ∀ r ∈ (step c).2.pending, r ∈ c.pending ++ rs

/-- A step that keeps all runs and leaves none waiting. -/
theorem keeps_of_settled {step : Step} {rs : List Run}
    (hwritten : (step c).1.flatMap Placed.written = (c.pending ++ rs).flatMap Run.written)
    (hcursor : (step c).2 = ⟨c.column + runsWidth (c.pending ++ rs), [],
      (c.pending ++ rs).foldl Run.after c.active⟩) : Keeps step c rs := by
  refine ⟨?_, ?_, ?_, ?_⟩ <;> rw [hcursor]
  · rw [hwritten]
    exact List.append_nil _
  · rfl
  · rfl
  · exact fun r hr => nomatch hr

/-- Runs that only wait are kept. -/
theorem keeps_waiting (rs : List Run) :
    Keeps (fun c => ([], { c with pending := c.pending ++ rs })) c rs :=
  ⟨rfl, rfl, rfl, fun _ hr => hr⟩

/-- Where all of it fits, room is made by placing what waits. -/
theorem makeRoom_of_fits {next : Nat}
    (h : (c.column + runsWidth c.pending + next : Int) ≤ m.width) :
    makeRoom m next c = each place c.pending { c with pending := [] } := by
  have hfits : fits m c (runsWidth c.pending + next) = true := by
    unfold fits
    rw [decide_eq_true_eq]
    omega
  unfold makeRoom
  rw [if_pos hfits]
  rfl

/-- Clusters that fit are placed one after the other. -/
theorem each_placeCluster_of_fits {clusters : List Text}
    (h : (c.column + Text.width clusters.flatten : Int) ≤ m.width) :
    each (placeCluster m) clusters c = (clusters.map fun cluster => .run (.text cluster),
      ⟨c.column + Text.width clusters.flatten, c.pending, c.active⟩) := by
  induction clusters generalizing c with
  | nil => rfl
  | cons cluster clusters ih =>
    rw [List.flatten_cons, Text.width_append] at h ⊢
    have hfits : fits m c (Text.width cluster) = true := by
      unfold fits
      rw [decide_eq_true_eq]
      omega
    have hfirst : placeCluster m cluster c = place (.text cluster) c := by
      unfold placeCluster
      rw [hfits, Bool.not_true, Bool.and_false]
      rfl
    have hrest : ((c.column + Text.width cluster : Nat) + Text.width clusters.flatten : Int)
        ≤ m.width := by
      omega
    have hlater := ih (c := (place (.text cluster) c).2) hrest
    rw [each_cons, hfirst, hlater, ← Nat.add_assoc]
    rfl

/-- **The parts of a dense word that fit are placed one after the other.** -/
theorem each_placeDense_of_fits {parts : List Run}
    (h : (c.column + runsWidth parts : Int) ≤ m.width) :
    ((each (placeDense m) parts c).1.flatMap Placed.written = parts.flatMap Run.written)
      ∧ (each (placeDense m) parts c).2
        = ⟨c.column + runsWidth parts, c.pending, parts.foldl Run.after c.active⟩ := by
  induction parts generalizing c with
  | nil => exact ⟨rfl, rfl⟩
  | cons r parts ih =>
    have hsum : runsWidth (r :: parts) = r.width + runsWidth parts := rfl
    have hone : (placeDense m r c).1.flatMap Placed.written = r.written
        ∧ (placeDense m r c).2 = ⟨c.column + r.width, c.pending, r.after c.active⟩ := by
      cases r with
      | style codes next => exact ⟨List.append_nil _, rfl⟩
      | text t =>
        have hwidth : (Run.text t).width = Text.width t := rfl
        have hclusters : (c.column + Text.width (Text.clusters t).flatten : Int) ≤ m.width := by
          rw [Text.clusters_flatten]
          omega
        have hstep : placeDense m (.text t) c
            = ((Text.clusters t).map fun cluster => .run (.text cluster),
              ⟨c.column + Text.width t, c.pending, c.active⟩) := by
          show each (placeCluster m) (Text.clusters t) c = _
          rw [each_placeCluster_of_fits hclusters, Text.clusters_flatten]
        rw [hstep]
        refine ⟨?_, rfl⟩
        rw [List.flatMap_map]
        show (Text.clusters t).flatMap (fun cluster => cluster) = t
        rw [List.flatMap_id', Text.clusters_flatten]
    have hrest : ((c.column + r.width : Nat) + runsWidth parts : Int) ≤ m.width := by
      omega
    obtain ⟨hwritten, hcursor⟩ :=
      ih (c := ⟨c.column + r.width, c.pending, r.after c.active⟩) hrest
    rw [each_cons, hone.2, List.flatMap_append, hone.1, hwritten, hcursor, hsum, Nat.add_assoc]
    exact ⟨rfl, rfl⟩

theorem firstClusterWidth_le (parts : List Run) : firstClusterWidth parts ≤ runsWidth parts := by
  unfold firstClusterWidth
  split
  · next r hr =>
    have hmem := List.mem_of_find?_eq_some hr
    have hcluster : ((Text.clusters r.literal).headD []).Sublist r.literal := by
      have hflatten := Text.clusters_flatten r.literal
      cases hclusters : Text.clusters r.literal with
      | nil => exact List.nil_sublist _
      | cons cluster clusters =>
        rw [hclusters] at hflatten
        rw [← hflatten]
        exact List.sublist_append_left _ _
    have hrun : r.literal.Sublist (parts.flatMap Run.literal) :=
      List.sublist_flatten_of_mem (List.mem_map_of_mem hmem)
    rw [runsWidth_eq]
    exact width_le_of_sublist (hcluster.trans hrun)
  · exact Nat.zero_le _

/-- **A unit that fits is kept.** -/
theorem ofUnit_keeps {u : LayoutUnit} (hu : u ≠ .newline)
    (h : (c.column + runsWidth (c.pending ++ u.runs) : Int) ≤ m.width) :
    Keeps (ofUnit m u) c u.runs := by
  rw [runsWidth_append] at h
  cases u with
  | newline => exact absurd rfl hu
  | blank t => exact keeps_waiting [.text t]
  | word parts =>
    have hparts : (LayoutUnit.word parts).runs = parts := rfl
    rw [hparts] at h
    unfold ofUnit
    dsimp only
    split
    · exact keeps_waiting parts
    · -- the waiting runs are placed, and behind them the word has room
      have hroom : ∀ {next : Nat}, next ≤ runsWidth parts →
          makeRoom m next c = (c.pending.map .run,
            ⟨c.column + runsWidth c.pending, [], c.pending.foldl Run.after c.active⟩) := by
        intro next hnext
        rw [makeRoom_of_fits (by omega), each_place]
      have hbehind : ((c.column + runsWidth c.pending : Nat) + runsWidth parts : Int)
          ≤ m.width := by
        omega
      split
      · obtain ⟨hwritten, hcursor⟩ := each_placeDense_of_fits
          (c := ⟨c.column + runsWidth c.pending, [], c.pending.foldl Run.after c.active⟩) hbehind
        refine keeps_of_settled ?_ ?_
        · rw [andThen_apply, hroom (firstClusterWidth_le parts), List.flatMap_append, hwritten,
            flatMap_written_run, hparts, List.flatMap_append]
        · rw [andThen_apply, hroom (firstClusterWidth_le parts), hcursor, hparts,
            runsWidth_append, List.foldl_append, Nat.add_assoc]
      · refine keeps_of_settled ?_ ?_
        · rw [andThen_apply, hroom (Nat.le_refl _), each_place, List.flatMap_append,
            flatMap_written_run, flatMap_written_run, hparts, List.flatMap_append]
        · rw [andThen_apply, hroom (Nat.le_refl _), each_place, hparts, runsWidth_append,
            List.foldl_append, Nat.add_assoc]

/-! ## §4. The ends of lines. -/

theorem fitting_eq_self {column : Nat} {t : Text}
    (h : (column + Text.width t : Int) ≤ m.width) : fitting m column t = t := by
  induction t generalizing column with
  | nil => rfl
  | cons ch t ih =>
    rw [Text.width_cons] at h
    have hfirst : (column + charWidth ch : Int) ≤ m.width := by omega
    have hrest : ((column + charWidth ch : Nat) + Text.width t : Int) ≤ m.width := by omega
    unfold fitting
    rw [if_pos hfirst, ih hrest]

/-- At the end of a line that fits, all that waits is placed. -/
theorem flushPending_of_fits (h : (c.column + runsWidth c.pending : Int) ≤ m.width) :
    flushPending m c = (c.pending.map .run,
      ⟨c.column + runsWidth c.pending, [], c.pending.foldl Run.after c.active⟩) := by
  have hall : ∀ (rs : List Run) (c : Cursor), (c.column + runsWidth rs : Int) ≤ m.width →
      each (placeTrailing m) rs c = each place rs c := by
    intro rs
    induction rs with
    | nil => intro c _; rfl
    | cons r rs ih =>
      intro c h
      have hsum : runsWidth (r :: rs) = r.width + runsWidth rs := rfl
      have hone : placeTrailing m r c = place r c := by
        cases r with
        | style codes next => rfl
        | text t =>
          have hwidth : (Run.text t).width = Text.width t := rfl
          show place (.text (fitting m c.column t)) c = _
          rw [fitting_eq_self (by omega)]
      have hrest := ih (place r c).2 (by
        show ((c.column + r.width : Nat) + runsWidth rs : Int) ≤ m.width
        omega)
      rw [each_cons, hone, hrest]
      rfl
  show each (placeTrailing m) c.pending { c with pending := [] } = _
  rw [hall c.pending { c with pending := [] } h, each_place]

end Step

/-! ## §5. Texts. -/

theorem oneLine_of_proper {u : LayoutUnit} (hu : u.Proper) (hne : u ≠ .newline) :
    OneLine u.runs := by
  intro r hr hmem
  cases u with
  | newline => exact absurd rfl hne
  | blank t =>
    obtain rfl := List.mem_singleton.mp hr
    exact (hu _ hmem).2 rfl
  | word parts => exact ne_newline_of_ink (hu r hr _ hmem) rfl

/-- What is put down for units and for the end of the text after them. -/
def unitsLaid (m : Measure) (units : List LayoutUnit) (c : Cursor) : Text :=
  (Step.andThen (Step.each (Step.ofUnit m) units)
    (Step.andThen (Step.flushPending m) (Step.endLine .stop)) c).1.flatMap Placed.written

theorem unitsLaid_cons (m : Measure) (u : LayoutUnit) (units : List LayoutUnit) (c : Cursor) :
    unitsLaid m (u :: units) c
      = (Step.ofUnit m u c).1.flatMap Placed.written
        ++ unitsLaid m units (Step.ofUnit m u c).2 := by
  have hassoc : ∀ a b d : List Placed, (a ++ b) ++ d = a ++ (b ++ d) := List.append_assoc
  unfold unitsLaid
  rw [← List.flatMap_append]
  exact congrArg _ (hassoc _ _ _)

/-- At the end of the text all that waits is written, and the open styles are ended. -/
theorem unitsLaid_nil {m : Measure} {c : Cursor}
    (h : (c.column + runsWidth c.pending : Int) ≤ m.width) :
    unitsLaid m [] c = c.pending.flatMap Run.written
      ++ Text.ending (c.pending.foldl Run.after c.active) := by
  have hflush := Step.flushPending_of_fits h
  show ((Step.flushPending m c).1 ++ [Placed.stop (Step.flushPending m c).2.active]).flatMap _ = _
  rw [hflush, List.flatMap_append, flatMap_written_run]
  exact congrArg _ (List.append_nil _)

/-- At a newline all that waits is written, and the next line begins with the open styles. -/
theorem unitsLaid_newline {m : Measure} {c : Cursor}
    (h : (c.column + runsWidth c.pending : Int) ≤ m.width) (units : List LayoutUnit)
    {active : List Entry} (hactive : c.pending.foldl Run.after c.active = active) :
    unitsLaid m (.newline :: units) c = c.pending.flatMap Run.written
      ++ (Text.ending active ++ '\n' :: openings active ++ unitsLaid m units ⟨0, [], active⟩) := by
  have hflush := Step.flushPending_of_fits h
  have hstep : Step.ofUnit m .newline c
      = ((Step.flushPending m c).1 ++ [.newline (Step.flushPending m c).2.active],
        { (Step.flushPending m c).2 with column := 0 }) := rfl
  rw [unitsLaid_cons, hstep, hflush, hactive, List.flatMap_append, flatMap_written_run,
    List.append_assoc, List.flatMap_singleton]
  rfl

/-- **Units that fit are written one after the other.** -/
theorem unitsLaid_of_fits {m : Measure} {units : List LayoutUnit} (hunits : ∀ u ∈ units, u.Proper)
    {c : Cursor} (hpending : OneLine c.pending)
    (h : Item.Fits m.width c.column (c.pending.flatMap Run.items ++ LayoutUnit.items units)) :
    unitsLaid m units c
      = Item.laid c.active (c.pending.flatMap Run.items ++ LayoutUnit.items units) := by
  -- on the units: what one leaves waiting is laid out with the others
  induction units generalizing c with
  | nil =>
    rw [fits_runs hpending] at h
    rw [unitsLaid_nil (by simpa using h.column_le), laid_runs hpending]
    rfl
  | cons u units ih =>
    have hu := hunits u List.mem_cons_self
    have hrest := fun v hv => hunits v (List.mem_cons_of_mem _ hv)
    have hitems : LayoutUnit.items (u :: units) = u.runs.flatMap Run.items
        ++ LayoutUnit.items units := by
      unfold LayoutUnit.items
      rw [List.flatMap_cons, List.flatMap_append]
    rw [hitems] at h ⊢
    by_cases hne : u = .newline
    · subst hne
      rw [fits_runs hpending] at h
      have hlater := ih hrest (c := ⟨0, [], c.pending.foldl Run.after c.active⟩)
        (fun r hr => nomatch hr) h.2
      rw [unitsLaid_newline (by simpa using h.column_le) units rfl, hlater, laid_runs hpending]
      rfl
    · -- the runs of the unit wait or are written, and what waits is laid out with the rest
      have hone := hpending.append (oneLine_of_proper hu hne)
      rw [← List.append_assoc, ← List.flatMap_append] at h ⊢
      have hcolumn := ((fits_runs hone _).mp h).column_le
      have hkeeps := Step.ofUnit_keeps hne (by simpa using hcolumn)
      have hwaiting : OneLine (Step.ofUnit m u c).2.pending :=
        fun r hr => hone r (hkeeps.waiting r hr)
      have hlater := ih hrest hwaiting (by
        rw [fits_runs hwaiting, hkeeps.column, ← fits_runs hone]
        exact h)
      rw [unitsLaid_cons, hlater, laid_runs hwaiting, laid_runs hone, hkeeps.active,
        ← hkeeps.written, List.append_assoc]

/-- **Text that fits is laid out as it is.** -/
theorem layout_of_fits {m : Measure} {rs : List Run}
    (h : Item.Fits m.width 0 (rs.flatMap Run.items)) :
    layout m rs = Item.laid [] (rs.flatMap Run.items) := by
  have hnil : (LayoutUnit.word []).Proper := fun r hr => nomatch hr
  have hitems : LayoutUnit.items (LayoutUnit.ofRuns [] rs) = rs.flatMap Run.items :=
    ofRuns_items [] rs
  have hall := unitsLaid_of_fits (m := m) (c := Cursor.start) (ofRuns_proper hnil rs)
    (fun r hr => nomatch hr) (by rw [hitems]; exact h)
  rw [hitems] at hall
  exact hall

/-! ## §6. Lines that fit, and lines that end without styles. -/

/-- Items fit from a column on if their first line fits there and their other lines fit. -/
theorem fits_of_lines_from {width : Int} {column : Nat} {items : List Item} {first : Text}
    {rest : List Text} (hlines : Text.lines (items.flatMap Item.literal) = first :: rest)
    (hfirst : (column + Text.width first : Int) ≤ width)
    (hrest : ∀ line ∈ rest, (Text.width line : Int) ≤ width) : Item.Fits width column items := by
  induction items generalizing column first rest with
  | nil =>
    show (column : Int) ≤ width
    omega
  | cons x items ih =>
    cases x with
    | style codes next => exact ih hlines hfirst hrest
    | char c =>
      unfold Item.Fits
      have htext : (Item.char c :: items).flatMap Item.literal
          = [c] ++ items.flatMap Item.literal := rfl
      rw [htext] at hlines
      split
      · next hc =>
        subst hc
        have hlines : [] :: Text.lines (items.flatMap Item.literal) = first :: rest := hlines
        obtain ⟨rfl, hothers⟩ := List.cons.inj hlines
        refine ⟨by simpa using hfirst, ?_⟩
        obtain ⟨next, others, hnext⟩ := List.exists_cons_of_ne_nil
          (Text.fieldsBy_ne_nil (· == '\n') (items.flatMap Item.literal))
        rw [hothers.symm.trans hnext] at hrest
        refine ih hnext ?_ fun line hline => hrest line (List.mem_cons_of_mem _ hline)
        have := hrest next List.mem_cons_self
        omega
      · next hc =>
        have hone : '\n' ∉ [c] := by simpa using Ne.symm hc
        obtain ⟨first', rest', hlater, hjoined⟩ := lines_append hone (items.flatMap Item.literal)
        obtain ⟨rfl, rfl⟩ := List.cons.inj (hlines.symm.trans hjoined)
        refine ih hlater ?_ hrest
        rw [Text.width_append] at hfirst
        have hwidth : Text.width [c] = charWidth c := rfl
        omega

/-- **Items fit if the lines of their text do.** -/
theorem fits_of_lines {width : Int} {rs : List Run}
    (h : ∀ line ∈ Text.lines (rs.flatMap Run.literal), (Text.width line : Int) ≤ width) :
    Item.Fits width 0 (rs.flatMap Run.items) := by
  obtain ⟨first, rest, hlines⟩ := List.exists_cons_of_ne_nil
    (Text.fieldsBy_ne_nil (· == '\n') (rs.flatMap Run.literal))
  have hlines : Text.lines (rs.flatMap Run.literal) = first :: rest := hlines
  rw [hlines] at h
  rw [← flatMap_literal_items] at hlines
  refine fits_of_lines_from hlines ?_ fun line hline => h line (List.mem_cons_of_mem _ hline)
  have := h first List.mem_cons_self
  omega

/-- **Nothing is added where no style is open at the ends of lines.** -/
theorem laid_eq_written {active : List Entry} {items : List Item}
    (h : ∀ before after, items = before ++ .char '\n' :: after →
      before.foldl Item.after active = [])
    (hend : items.foldl Item.after active = []) :
    Item.laid active items = items.flatMap Item.written := by
  induction items generalizing active with
  | nil =>
    have hnone : active = [] := hend
    rw [hnone]
    rfl
  | cons x items ih =>
    have hrest : Item.laid (Item.after active x) items = items.flatMap Item.written :=
      ih (fun before after heq => h (x :: before) after (by rw [heq]; rfl)) hend
    cases x with
    | style codes next => exact congrArg (codes ++ ·) hrest
    | char c =>
      have hlater : Item.laid active items = items.flatMap Item.written := hrest
      unfold Item.laid
      split
      · next hc =>
        have hnone : active = [] := h [] items (by rw [hc]; rfl)
        rw [hlater, hnone, hc]
        rfl
      · rw [hlater]
        rfl

end TermMarkup
