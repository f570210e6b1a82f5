/-
  TermMarkup.Proofs.LayoutMoves
  ─────────────────────────────
  WHAT A LAYOUT CAN DO.  Units are taken apart into MATERIAL: style runs, blanks,
  newlines, and solid pieces that no line end may part.  A layout takes in the
  material in order, by a few kinds of moves, and what every layout keeps is
  what each of these moves keeps.

  What waits on the cursor has not been taken in yet, so a layout step that
  lets runs wait is one that takes in less than it is given.

    • `Move`, `Lays` — one move, and a run of moves,
    • `ofUnit_laysAt` — a unit is laid out by moves,
    • `placements_lays` — and so is a whole text,
    • `materialOf_items` — the material holds the items of the text.
-/
import TermMarkup.Proofs.Units
import Mathlib.Data.List.Basic

namespace TermMarkup

/-! ## §1. Material. -/

/-- What a layout takes in. -/
inductive Material where
  | style (codes : Text) (active : List Entry)
  | blank (t : Text)
  /-- Runs that stay on one line. -/
  | solid (parts : List Run)
  | newline
  deriving DecidableEq, Repr

/-- The runs of a piece of material. -/
def Material.runs : Material → List Run
  | style codes active => [.style codes active]
  | blank t => [.text t]
  | solid parts => parts
  | newline => [.text ['\n']]

/-- The items of a piece of material. -/
def Material.items (w : Material) : List Item := w.runs.flatMap Run.items

/-- A run that waits: its text is blank. -/
def Run.waiting : Run → Material
  | text t => .blank t
  | style codes active => .style codes active

/-- The material of a part of a dense word. -/
def Run.loose : Run → List Material
  | text t => (Text.clusters t).map fun cluster => .solid [.text cluster]
  | style codes active => [.style codes active]

/-- The material of a unit. -/
def LayoutUnit.material (threshold : Int) : LayoutUnit → List Material
  | .newline => [.newline]
  | .blank t => [.blank t]
  | .word parts =>
    if !parts.any Run.isText then parts.map Run.waiting
    else if threshold < runsWidth parts then parts.flatMap Run.loose
    else [.solid parts]

theorem loose_items (r : Run) : r.loose.flatMap Material.items = r.items := by
  cases r with
  | style codes active => rfl
  | text t =>
    show ((Text.clusters t).map fun cluster => Material.solid [.text cluster]).flatMap
      Material.items = t.map .char
    have h : ∀ gs : List Text,
        (gs.map fun cluster => Material.solid [.text cluster]).flatMap Material.items
          = gs.flatten.map .char := by
      intro gs
      induction gs with
      | nil => rfl
      | cons g gs ih =>
        have hg : (Material.solid [.text g]).items = g.map .char := List.append_nil _
        rw [List.map_cons, List.flatMap_cons, hg, ih, List.flatten_cons, List.map_append]
    rw [h, Text.clusters_flatten]

theorem waiting_items (r : Run) : r.waiting.items = r.items := by
  cases r <;> exact List.append_nil _

/-- **The material holds the items of the unit.** -/
theorem material_items (threshold : Int) (u : LayoutUnit) :
    (u.material threshold).flatMap Material.items = u.runs.flatMap Run.items := by
  cases u with
  | newline => rfl
  | blank t => exact List.append_nil _
  | word parts =>
    show (if _ then _ else if _ then _ else _ : List Material).flatMap Material.items
      = parts.flatMap Run.items
    split
    · rw [List.flatMap_map]
      exact List.flatMap_congr fun r _ => waiting_items r
    · split
      · rw [List.flatMap_assoc]
        exact List.flatMap_congr fun r _ => loose_items r
      · exact List.append_nil _

/-! ## §2. Moves. -/

/-- Where a layout is: the columns taken in its line, and the open styles. -/
structure Spot where
  column : Nat
  active : List Entry

/-- The spot of a cursor. -/
def Cursor.spot (c : Cursor) : Spot := ⟨c.column, c.active⟩

/-- Runs that are put down as they are. -/
theorem flatMap_written_run (parts : List Run) :
    (parts.map Placed.run).flatMap Placed.written = parts.flatMap Run.written := by
  rw [List.flatMap_map]
  rfl

variable {m : Measure}

/-- One move: it takes in material, puts something down and goes to another spot.  Text is put down
where it fits, a solid piece also at the start of a line, and only a line that has text is
wrapped. -/
inductive Move (m : Measure) : Spot → List Material → List Placed → Spot → Prop
  | style (s : Spot) (codes : Text) (active : List Entry) :
      Move m s [.style codes active] [.run (.style codes active)] ⟨s.column, active⟩
  | keep (s : Spot) {t kept : Text} : kept <+: t →
      ((s.column + Text.width kept : Int) ≤ m.width ∨ kept = []) →
      Move m s [.blank t] [.run (.text kept)] ⟨s.column + Text.width kept, s.active⟩
  | drop (s : Spot) (t : Text) : Move m s [.blank t] [] s
  | solid (s : Spot) {parts : List Run} :
      ((s.column + runsWidth parts : Int) ≤ m.width ∨ s.column = 0) →
      Move m s [.solid parts] (parts.map .run)
        ⟨s.column + runsWidth parts, parts.foldl Run.after s.active⟩
  | newline (s : Spot) : Move m s [.newline] [.newline s.active] ⟨0, s.active⟩
  | wrap (s : Spot) : 0 < s.column → Move m s [] [.wrap s.active] ⟨0, s.active⟩

/-- A run of moves. -/
inductive Lays (m : Measure) : Spot → List Material → List Placed → Spot → Prop
  | stay (s : Spot) : Lays m s [] [] s
  | move {s s' s'' : Spot} {w ws : List Material} {p ps : List Placed} :
      Move m s w p s' → Lays m s' ws ps s'' → Lays m s (w ++ ws) (p ++ ps) s''

theorem Move.lays {s s' : Spot} {w : List Material} {p : List Placed} (h : Move m s w p s') :
    Lays m s w p s' := by
  have hrun := Lays.move h (.stay s')
  rw [List.append_nil, List.append_nil] at hrun
  exact hrun

theorem Lays.append {s s' s'' : Spot} {ws ws' : List Material} {ps ps' : List Placed}
    (h : Lays m s ws ps s') (h' : Lays m s' ws' ps' s'') :
    Lays m s (ws ++ ws') (ps ++ ps') s'' := by
  induction h with
  | stay s => exact h'
  | move hmove _ ih =>
    rw [List.append_assoc, List.append_assoc]
    exact .move hmove (ih h')

/-! ## §3. Steps. -/

namespace Step

/-- From the cursor `c` the step takes in `ws` by moves, and leaves `rest` waiting. -/
def LaysAt (m : Measure) (step : Step) (c : Cursor) (ws : List Material) (rest : List Run) : Prop :=
  Lays m c.spot ws (step c).1 (step c).2.spot ∧ (step c).2.pending = rest

variable {step next : Step} {c : Cursor} {ws ws' : List Material} {rest rest' : List Run}

theorem LaysAt.andThen (h : LaysAt m step c ws rest) (h' : LaysAt m next (step c).2 ws' rest') :
    LaysAt m (andThen step next) c (ws ++ ws') rest' :=
  ⟨h.1.append h'.1, h'.2⟩

/-- A step that hands the waiting runs on takes in what waits. -/
theorem laysAt_withPending {use : List Run → Step}
    (h : LaysAt m (use c.pending) { c with pending := [] } ws rest) :
    LaysAt m (withPending use) c ws rest :=
  h

/-- Steps that leave the same runs waiting, one after the other. -/
theorem each_laysAt {α : Type} {step : α → Step} {given : α → List Material} (xs : List α)
    (h : ∀ x ∈ xs, ∀ c : Cursor, c.pending = rest → LaysAt m (step x) c (given x) rest)
    (hc : c.pending = rest) : LaysAt m (each step xs) c (xs.flatMap given) rest := by
  induction xs generalizing c with
  | nil => exact ⟨.stay _, hc⟩
  | cons x xs ih =>
    have hfirst := h x List.mem_cons_self c hc
    rw [List.flatMap_cons]
    exact hfirst.andThen (ih (fun y hy => h y (List.mem_cons_of_mem _ hy)) hfirst.2)

/-- Placing runs one after the other puts them all down. -/
theorem each_place (parts : List Run) (c : Cursor) :
    each place parts c = (parts.map .run,
      ⟨c.column + runsWidth parts, c.pending, parts.foldl Run.after c.active⟩) := by
  induction parts generalizing c with
  | nil => rfl
  | cons r parts ih =>
    show ([Placed.run r] ++ (each place parts (place r c).2).1,
      (each place parts (place r c).2).2) = _
    rw [ih]
    show (_, (⟨c.column + r.width + runsWidth parts, _, _⟩ : Cursor))
      = (_, (⟨c.column + (r.width + runsWidth parts), _, _⟩ : Cursor))
    rw [Nat.add_assoc]
    rfl

/-- Style runs are placed wherever they stand. -/
theorem placeStyle_laysAt (codes : Text) (active : List Entry) (c : Cursor) :
    LaysAt m (place (.style codes active)) c [.style codes active] c.pending :=
  ⟨(Move.style c.spot codes active).lays, rfl⟩

/-- Runs that all fit are placed. -/
theorem each_place_laysAt (parts : List Run) {c : Cursor}
    (hfit : (c.column + runsWidth parts : Int) ≤ m.width) :
    LaysAt m (each place parts) c (parts.map Run.waiting) c.pending := by
  -- if all fit, the first does, and then the rest does behind it
  induction parts generalizing c with
  | nil => exact ⟨.stay _, rfl⟩
  | cons r parts ih =>
    have hsum : runsWidth (r :: parts) = r.width + runsWidth parts := rfl
    have hrest : ((place r c).2.column + runsWidth parts : Int) ≤ m.width := by
      show ((c.column + r.width : Nat) + runsWidth parts : Int) ≤ m.width
      omega
    have hfirst : LaysAt m (place r) c [r.waiting] c.pending := by
      cases r with
      | style codes active => exact placeStyle_laysAt codes active c
      | text t =>
        have ht : (c.spot.column + Text.width t : Int) ≤ m.width := by
          have hw : (Run.text t).width = Text.width t := rfl
          show (c.column + Text.width t : Int) ≤ m.width
          omega
        exact ⟨(Move.keep c.spot (List.prefix_refl t) (.inl ht)).lays, rfl⟩
    exact hfirst.andThen (ih hrest)

/-- A solid piece is placed where it fits, and at the start of a line. -/
theorem solid_laysAt {parts : List Run}
    (h : (c.column + runsWidth parts : Int) ≤ m.width ∨ c.column = 0) :
    LaysAt m (each place parts) c [.solid parts] c.pending := by
  unfold LaysAt
  rw [each_place]
  exact ⟨(Move.solid c.spot h).lays, rfl⟩

theorem commitPending_laysAt (hfit : (c.column + runsWidth c.pending : Int) ≤ m.width) :
    LaysAt m commitPending c (c.pending.map Run.waiting) [] :=
  laysAt_withPending (each_place_laysAt (c := { c with pending := [] }) c.pending hfit)

/-- Dropping the blanks among runs leaves the column as it is. -/
theorem each_place_styles_laysAt (rs : List Run) (c : Cursor) :
    LaysAt m (each place (rs.filter fun r => !r.isText)) c (rs.map Run.waiting) c.pending
      ∧ (each place (rs.filter fun r => !r.isText) c).2.column = c.column := by
  induction rs generalizing c with
  | nil => exact ⟨⟨.stay _, rfl⟩, rfl⟩
  | cons r rs ih =>
    cases r with
    | text t =>
      obtain ⟨⟨hlays, hpending⟩, hcolumn⟩ := ih c
      exact ⟨⟨.move (.drop c.spot t) hlays, hpending⟩, hcolumn⟩
    | style codes active =>
      obtain ⟨hrest, hcolumn⟩ := ih (place (.style codes active) c).2
      exact ⟨(placeStyle_laysAt codes active c).andThen hrest, hcolumn⟩

theorem dropPendingBlanks_laysAt (c : Cursor) :
    LaysAt m dropPendingBlanks c (c.pending.map Run.waiting) []
      ∧ (dropPendingBlanks c).2.column = c.column :=
  each_place_styles_laysAt c.pending { c with pending := [] }

theorem wrap_laysAt (h : 0 < c.column) : LaysAt m wrap c (c.pending.map Run.waiting) [] := by
  obtain ⟨hdrop, hcolumn⟩ := dropPendingBlanks_laysAt (m := m) c
  have hcolumn : 0 < (dropPendingBlanks c).2.column := by omega
  have hwrap : LaysAt m (endLine .wrap) (dropPendingBlanks c).2 [] [] :=
    ⟨(Move.wrap (dropPendingBlanks c).2.spot hcolumn).lays, hdrop.2⟩
  have hboth := hdrop.andThen hwrap
  rw [List.append_nil] at hboth
  exact hboth

/-! ## §4. The ends of lines. -/

theorem fitting_start (m : Measure) (column : Nat) (t : Text) : fitting m column t <+: t := by
  induction t generalizing column with
  | nil => exact List.prefix_refl _
  | cons ch t ih =>
    unfold fitting
    split
    · exact List.cons_prefix_cons.mpr ⟨rfl, ih _⟩
    · exact List.nil_prefix

theorem fitting_fits (m : Measure) (column : Nat) (t : Text) :
    (column + Text.width (fitting m column t) : Int) ≤ m.width ∨ fitting m column t = [] := by
  induction t generalizing column with
  | nil => exact .inr rfl
  | cons ch t ih =>
    unfold fitting
    split
    · next hfit =>
      left
      rw [Text.width_cons]
      rcases ih (column + charWidth ch) with h | h
      · omega
      · rw [h, Text.width_nil]
        omega
    · exact .inr rfl

theorem placeTrailing_laysAt (r : Run) (c : Cursor) :
    LaysAt m (placeTrailing m r) c [r.waiting] c.pending := by
  cases r with
  | style codes active => exact placeStyle_laysAt codes active c
  | text t =>
    exact ⟨(Move.keep c.spot (fitting_start m c.column t) (fitting_fits m c.column t)).lays, rfl⟩

theorem flushPending_laysAt (c : Cursor) :
    LaysAt m (flushPending m) c (c.pending.map Run.waiting) [] := by
  refine laysAt_withPending ?_
  rw [List.map_eq_flatMap]
  refine each_laysAt c.pending (fun r _ c' hc' => ?_) rfl
  have h := placeTrailing_laysAt (m := m) r c'
  rw [hc'] at h
  exact h

/-! ## §5. Units. -/

/-- Making room takes in what waits; after it the next piece fits, or a line has just begun. -/
theorem makeRoom_laysAt (m : Measure) (next : Nat) (c : Cursor) :
    LaysAt m (makeRoom m next) c (c.pending.map Run.waiting) []
      ∧ (((makeRoom m next c).2.column + next : Int) ≤ m.width
          ∨ (makeRoom m next c).2.column = 0) := by
  unfold LaysAt makeRoom
  split
  · -- all of it fits: the waiting runs are placed
    next hfits =>
    have hfits : (c.column + (runsWidth c.pending + next : Nat) : Int) ≤ m.width := by
      simpa [fits] using hfits
    refine ⟨commitPending_laysAt (by omega), .inl ?_⟩
    show ((each place c.pending { c with pending := [] }).2.column + next : Int) ≤ m.width
    rw [each_place]
    show ((c.column + runsWidth c.pending : Nat) + next : Int) ≤ m.width
    omega
  · split
    · next hcolumn => exact ⟨wrap_laysAt hcolumn, .inr rfl⟩
    · -- the line is empty still, so there is nothing to wrap
      next hcolumn =>
      obtain ⟨hdrop, hsame⟩ := dropPendingBlanks_laysAt (m := m) c
      exact ⟨hdrop, .inr (by omega)⟩

/-- A cluster is a solid piece. -/
theorem placeCluster_laysAt (cluster : Text) {c : Cursor} (hc : c.pending = []) :
    LaysAt m (placeCluster m cluster) c [.solid [.text cluster]] [] := by
  have hwidth : runsWidth [.text cluster] = Text.width cluster := rfl
  unfold LaysAt placeCluster
  split
  · next h =>
    have hcolumn : 0 < c.column := by
      simp only [Bool.and_eq_true, decide_eq_true_eq] at h
      exact h.1
    have hwrap := wrap_laysAt (m := m) hcolumn
    rw [hc] at hwrap
    have hplace : LaysAt m (each place [.text cluster]) (wrap c).2 [.solid [.text cluster]]
        (wrap c).2.pending :=
      solid_laysAt (.inr rfl)
    rw [hwrap.2] at hplace
    exact hwrap.andThen hplace
  · -- the test failed, so the cluster fits or nothing stands before it
    next h =>
    have hroom : (c.column + runsWidth [.text cluster] : Int) ≤ m.width ∨ c.column = 0 := by
      by_cases hcolumn : c.column = 0
      · exact .inr hcolumn
      · left
        have hfits : fits m c (Text.width cluster) = true := by
          by_contra hfits
          exact h (by simp [hfits]; omega)
        simpa [fits, hwidth] using hfits
    have hplace := solid_laysAt hroom
    rw [hc] at hplace
    exact hplace

theorem placeDense_laysAt (r : Run) {c : Cursor} (hc : c.pending = []) :
    LaysAt m (placeDense m r) c r.loose [] := by
  cases r with
  | style codes active => exact hc ▸ placeStyle_laysAt codes active c
  | text t =>
    show LaysAt m (each (placeCluster m) (Text.clusters t)) c
      ((Text.clusters t).map fun cluster => .solid [.text cluster]) []
    rw [List.map_eq_flatMap]
    exact each_laysAt _ (fun cluster _ c' hc' => placeCluster_laysAt cluster hc') hc

/-- **A unit is laid out by moves.**  With what waits before it, it makes the material that is
taken in and what waits after it. -/
theorem ofUnit_laysAt (m : Measure) (u : LayoutUnit) (c : Cursor) :
    ∃ ws rest, LaysAt m (ofUnit m u) c ws rest
      ∧ c.pending.map Run.waiting ++ u.material m.threshold = ws ++ rest.map Run.waiting := by
  cases u with
  | newline =>
    have hflush := flushPending_laysAt (m := m) c
    have hend : LaysAt m (endLine .newline) (flushPending m c).2 [.newline] [] :=
      ⟨(Move.newline _).lays, hflush.2⟩
    exact ⟨_, [], hflush.andThen hend, by simp [LayoutUnit.material]⟩
  | blank t =>
    exact ⟨[], c.pending ++ [.text t], ⟨.stay _, rfl⟩, by simp [LayoutUnit.material, Run.waiting]⟩
  | word parts =>
    unfold ofUnit LayoutUnit.material
    dsimp only
    split
    · -- a word without text waits
      exact ⟨[], c.pending ++ parts, ⟨.stay _, rfl⟩, by simp⟩
    · split
      · obtain ⟨hroom, -⟩ := makeRoom_laysAt m (firstClusterWidth parts) c
        have hparts := each_laysAt (m := m) (c := (makeRoom m (firstClusterWidth parts) c).2) parts
          (fun r _ c' hc' => placeDense_laysAt r hc') hroom.2
        exact ⟨_, [], hroom.andThen hparts, by simp⟩
      · obtain ⟨hroom, hfits⟩ := makeRoom_laysAt m (runsWidth parts) c
        have hparts := solid_laysAt hfits
        rw [hroom.2] at hparts
        exact ⟨_, [], hroom.andThen hparts, by simp⟩

theorem each_ofUnit_laysAt (m : Measure) (units : List LayoutUnit) (c : Cursor) :
    ∃ ws rest, LaysAt m (each (ofUnit m) units) c ws rest
      ∧ c.pending.map Run.waiting ++ units.flatMap (LayoutUnit.material m.threshold)
          = ws ++ rest.map Run.waiting := by
  -- what one unit leaves waiting is taken in with the units after it
  induction units generalizing c with
  | nil => exact ⟨[], c.pending, ⟨.stay _, rfl⟩, by simp⟩
  | cons u units ih =>
    obtain ⟨ws, waiting, hfirst, hgiven⟩ := ofUnit_laysAt m u c
    obtain ⟨ws', rest, hrest, hgiven'⟩ := ih (ofUnit m u c).2
    rw [hfirst.2] at hgiven'
    refine ⟨ws ++ ws', rest, hfirst.andThen hrest, ?_⟩
    rw [List.flatMap_cons, ← List.append_assoc, hgiven, List.append_assoc, hgiven',
      List.append_assoc]

end Step

/-- The material of compiled text. -/
def materialOf (threshold : Int) (rs : List Run) : List Material :=
  (LayoutUnit.ofRuns [] rs).flatMap (LayoutUnit.material threshold)

/-- **A text is laid out by moves, from the start of a line to the end of the text.** -/
theorem placements_lays (m : Measure) (rs : List Run) :
    ∃ ps s, placements m rs = ps ++ [.stop s.active]
      ∧ Lays m ⟨0, []⟩ (materialOf m.threshold rs) ps s := by
  obtain ⟨ws, rest, hunits, hgiven⟩ :=
    Step.each_ofUnit_laysAt m (LayoutUnit.ofRuns [] rs) Cursor.start
  have hflush := Step.flushPending_laysAt (m := m)
    (Step.each (Step.ofUnit m) (LayoutUnit.ofRuns [] rs) Cursor.start).2
  rw [hunits.2] at hflush
  have hall := hunits.andThen hflush
  have hgiven : materialOf m.threshold rs = ws ++ rest.map Run.waiting := hgiven
  refine ⟨_, _, ?_, hgiven ▸ hall.1⟩
  exact (List.append_assoc _ _ _).symm

/-- **The material holds the items of the runs, in their order.** -/
theorem materialOf_items (threshold : Int) (rs : List Run) :
    (materialOf threshold rs).flatMap Material.items = rs.flatMap Run.items := by
  unfold materialOf
  rw [List.flatMap_assoc]
  have h := ofRuns_items [] rs
  unfold LayoutUnit.items at h
  rw [List.flatMap_assoc] at h
  refine (List.flatMap_congr fun u _ => ?_).trans h
  exact material_items threshold u

/-! ## §6. Kinds of material. -/

/-- The material holds characters of its kind only. -/
def Material.Proper : Material → Prop
  | .blank t => ∀ c ∈ t, isBlank c = true ∧ c ≠ '\n'
  | .solid parts => ∀ r ∈ parts, ∀ c ∈ r.literal, isBlank c = false
  | _ => True

theorem mem_of_mem_clusters {t cluster : Text} (h : cluster ∈ Text.clusters t) :
    ∀ c ∈ cluster, c ∈ t := by
  intro c hc
  rw [← Text.clusters_flatten t]
  exact List.mem_flatten_of_mem h hc

theorem material_proper (threshold : Int) {u : LayoutUnit} (hu : u.Proper) :
    ∀ w ∈ u.material threshold, w.Proper := by
  intro w hw
  cases u with
  | newline =>
    obtain rfl := List.mem_singleton.mp hw
    trivial
  | blank t =>
    obtain rfl := List.mem_singleton.mp hw
    exact hu
  | word parts =>
    unfold LayoutUnit.material at hw
    dsimp only at hw
    split at hw
    · next hstyles =>
      -- a word without text has style runs only
      obtain ⟨r, hr, rfl⟩ := List.mem_map.mp hw
      cases r with
      | style codes active => trivial
      | text t => exact absurd hstyles (by simpa using ⟨_, hr, rfl⟩)
    · split at hw
      · obtain ⟨r, hr, hw⟩ := List.mem_flatMap.mp hw
        cases r with
        | style codes active =>
          obtain rfl := List.mem_singleton.mp hw
          trivial
        | text t =>
          obtain ⟨cluster, hcluster, rfl⟩ := List.mem_map.mp hw
          intro r' hr' c hc
          obtain rfl := List.mem_singleton.mp hr'
          exact hu _ hr c (mem_of_mem_clusters hcluster c hc)
      · obtain rfl := List.mem_singleton.mp hw
        exact hu

/-- **The material of a text holds characters of its kind only.** -/
theorem materialOf_proper (threshold : Int) (rs : List Run) :
    ∀ w ∈ materialOf threshold rs, w.Proper := by
  intro w hw
  obtain ⟨u, hu, hw⟩ := List.mem_flatMap.mp hw
  have hnil : (LayoutUnit.word []).Proper := fun r hr => nomatch hr
  exact material_proper threshold (ofRuns_proper hnil rs u hu) w hw

end TermMarkup
