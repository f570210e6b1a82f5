/-
  TermMarkup.Proofs.Recast
  ────────────────────────
  THE LAYOUT DOES NOT LOOK INTO THE OPEN STYLES.  It carries them along and
  hands them to the line ends, which write the codes of each; so entries may be
  recast, and as long as their codes stay the same, the layout does too.

    • `Step.Recasts` — a step on recast styles does what the step does on others,
    • `ofUnit_recasts` — as does the layout of a unit,
    • `placements_recast` — what is put down for recast runs,
    • `layout_recast` — and what is written.
-/
import TermMarkup.Layout
import Mathlib.Data.List.Basic

namespace TermMarkup

variable {f : Entry → Entry}

/-! ## §1. Recast runs and units. -/

theorem openings_recast (h : ∀ e, (f e).opens = e.opens) (entries : List Entry) :
    openings (entries.map f) = openings entries := by
  unfold openings
  rw [List.flatMap_map]
  exact List.flatMap_congr fun e _ => h e

theorem closings_recast (h : ∀ e, (f e).closes = e.closes) (entries : List Entry) :
    closings (entries.map f) = closings entries := by
  unfold closings
  rw [List.flatMap_map]
  exact List.flatMap_congr fun e _ => h e

/-- The run with the entries that are open after it recast. -/
def Run.recast (f : Entry → Entry) : Run → Run
  | text t => .text t
  | style codes active => .style codes (active.map f)

theorem recast_isText (r : Run) : (r.recast f).isText = r.isText := by
  cases r <;> rfl

theorem recast_literal (r : Run) : (r.recast f).literal = r.literal := by
  cases r <;> rfl

theorem runsWidth_recast (rs : List Run) : runsWidth (rs.map (Run.recast f)) = runsWidth rs := by
  induction rs with
  | nil => rfl
  | cons r rs ih =>
    show Text.width (r.recast f).literal + runsWidth (rs.map (Run.recast f)) = _
    rw [recast_literal, ih]
    rfl

theorem any_isText_recast (rs : List Run) :
    (rs.map (Run.recast f)).any Run.isText = rs.any Run.isText := by
  rw [List.any_map]
  exact congrArg rs.any (funext recast_isText)

theorem firstClusterWidth_recast (rs : List Run) :
    firstClusterWidth (rs.map (Run.recast f)) = firstClusterWidth rs := by
  have hfind : (rs.map (Run.recast f)).find? Run.isText
      = (rs.find? Run.isText).map (Run.recast f) := by
    rw [List.find?_map]
    exact congrArg (fun p => (rs.find? p).map _) (funext recast_isText)
  unfold firstClusterWidth
  rw [hfind]
  cases rs.find? Run.isText with
  | none => rfl
  | some r =>
    show Text.width ((Text.clusters (r.recast f).literal).headD []) = _
    rw [recast_literal]

/-- The unit with its runs recast. -/
def LayoutUnit.recast (f : Entry → Entry) : LayoutUnit → LayoutUnit
  | word parts => .word (parts.map (Run.recast f))
  | blank t => .blank t
  | newline => .newline

theorem flush_recast (word : List Run) (rest : List LayoutUnit) :
    LayoutUnit.flush (word.map (Run.recast f)) (rest.map (LayoutUnit.recast f))
      = (LayoutUnit.flush word rest).map (LayoutUnit.recast f) := by
  cases word <;> rfl

theorem ofChunks_recast (word : List Run) (cs : List Chunk) :
    LayoutUnit.ofChunks (word.map (Run.recast f)) cs
      = ((LayoutUnit.ofChunks word cs).1.map (LayoutUnit.recast f),
          (LayoutUnit.ofChunks word cs).2.map (Run.recast f)) := by
  induction cs generalizing word with
  | nil => rfl
  | cons chunk cs ih =>
    -- chunks hold no styles, so what follows the open word is recast into itself
    have hrest : LayoutUnit.ofChunks [] cs
        = ((LayoutUnit.ofChunks [] cs).1.map (LayoutUnit.recast f),
            (LayoutUnit.ofChunks [] cs).2.map (Run.recast f)) := ih []
    obtain ⟨hunits, hlast⟩ := Prod.mk.inj hrest
    cases chunk with
    | ink t =>
      have hword : word.map (Run.recast f) ++ [Run.text t]
          = (word ++ [Run.text t]).map (Run.recast f) := by
        rw [List.map_append]
        rfl
      show LayoutUnit.ofChunks (word.map (Run.recast f) ++ [.text t]) cs = _
      rw [hword, ih]
      rfl
    | newline =>
      show (LayoutUnit.flush (word.map (Run.recast f)) (.newline :: (LayoutUnit.ofChunks [] cs).1),
        (LayoutUnit.ofChunks [] cs).2) = _
      rw [hlast, hunits]
      exact congrArg (·, _) (flush_recast word (.newline :: _))
    | blank t =>
      show (LayoutUnit.flush (word.map (Run.recast f)) (.blank t :: (LayoutUnit.ofChunks [] cs).1),
        (LayoutUnit.ofChunks [] cs).2) = _
      rw [hlast, hunits]
      exact congrArg (·, _) (flush_recast word (.blank t :: _))

/-- **The units of recast runs** are the units of the runs, recast. -/
theorem ofRuns_recast (word rs : List Run) :
    LayoutUnit.ofRuns (word.map (Run.recast f)) (rs.map (Run.recast f))
      = (LayoutUnit.ofRuns word rs).map (LayoutUnit.recast f) := by
  induction rs generalizing word with
  | nil => exact flush_recast word []
  | cons r rs ih =>
    cases r with
    | style codes active =>
      have hword : word.map (Run.recast f) ++ [Run.style codes (active.map f)]
          = (word ++ [Run.style codes active]).map (Run.recast f) := by
        rw [List.map_append]
        rfl
      show LayoutUnit.ofRuns (word.map (Run.recast f) ++ [.style codes (active.map f)])
        (rs.map (Run.recast f)) = _
      rw [hword, ih]
      rfl
    | text t =>
      show (LayoutUnit.ofChunks (word.map (Run.recast f)) t.chunks).1
        ++ LayoutUnit.ofRuns (LayoutUnit.ofChunks (word.map (Run.recast f)) t.chunks).2
            (rs.map (Run.recast f)) = _
      rw [ofChunks_recast, ih, ← List.map_append]
      rfl

/-! ## §2. Steps. -/

/-- What is put down, with the entries recast. -/
def Placed.recast (f : Entry → Entry) : Placed → Placed
  | run r => .run (r.recast f)
  | wrap active => .wrap (active.map f)
  | newline active => .newline (active.map f)
  | stop active => .stop (active.map f)

/-- The cursor with the entries recast. -/
def Cursor.recast (f : Entry → Entry) (c : Cursor) : Cursor :=
  ⟨c.column, c.pending.map (Run.recast f), c.active.map f⟩

namespace Step

/-- From a recast cursor, the second step does what the first does from the cursor itself, with the
entries recast. -/
def Recasts (f : Entry → Entry) (step step' : Step) : Prop :=
  ∀ c, step' (c.recast f) = ((step c).1.map (Placed.recast f), (step c).2.recast f)

variable {step step' next next' : Step} {m : Measure}

theorem Recasts.andThen (h : Recasts f step step') (h' : Recasts f next next') :
    Recasts f (andThen step next) (andThen step' next') := by
  intro c
  show ((step' (c.recast f)).1 ++ (next' (step' (c.recast f)).2).1,
    (next' (step' (c.recast f)).2).2) = _
  rw [h c, h' (step c).2, ← List.map_append]
  rfl

theorem each_recasts {α β : Type} {step : α → Step} {step' : β → Step} {g : α → β}
    (h : ∀ x, Recasts f (step x) (step' (g x))) (xs : List α) :
    Recasts f (each step xs) (each step' (xs.map g)) := by
  induction xs with
  | nil => exact fun _ => rfl
  | cons x xs ih => exact (h x).andThen ih

theorem place_recasts (r : Run) : Recasts f (place r) (place (r.recast f)) := by
  cases r <;> exact fun _ => rfl

theorem endLine_recasts {lineEnd : List Entry → Placed}
    (h : ∀ active, lineEnd (active.map f) = (lineEnd active).recast f) :
    Recasts f (endLine lineEnd) (endLine lineEnd) :=
  fun c => congrArg (fun p => ([p], ({ c with column := 0 } : Cursor).recast f)) (h c.active)

theorem withPending_recasts {use use' : List Run → Step}
    (h : ∀ rs, Recasts f (use rs) (use' (rs.map (Run.recast f)))) :
    Recasts f (withPending use) (withPending use') :=
  fun c => h c.pending { c with pending := [] }

/-- Runs that are left waiting. -/
theorem wait_recasts {rs rs' : List Run} (h : rs' = rs.map (Run.recast f)) :
    Recasts f (fun c => ([], { c with pending := c.pending ++ rs }))
      (fun c => ([], { c with pending := c.pending ++ rs' })) := by
  subst h
  intro c
  show (([], ⟨_, c.pending.map _ ++ rs.map _, _⟩) : List Placed × Cursor) = _
  rw [← List.map_append]
  rfl

theorem commitPending_recasts : Recasts f commitPending commitPending :=
  withPending_recasts (each_recasts place_recasts)

theorem dropPendingBlanks_recasts : Recasts f dropPendingBlanks dropPendingBlanks := by
  refine withPending_recasts fun rs => ?_
  have hfilter : (rs.map (Run.recast f)).filter (fun r => !r.isText)
      = (rs.filter fun r => !r.isText).map (Run.recast f) := by
    rw [List.filter_map]
    refine congrArg _ (List.filter_congr fun r _ => ?_)
    exact congrArg (!·) (recast_isText r)
  rw [hfilter]
  exact each_recasts place_recasts _

theorem wrap_recasts : Recasts f wrap wrap :=
  dropPendingBlanks_recasts.andThen (endLine_recasts fun _ => rfl)

theorem placeTrailing_recasts (r : Run) :
    Recasts f (placeTrailing m r) (placeTrailing m (r.recast f)) := by
  cases r <;> exact fun _ => rfl

theorem flushPending_recasts : Recasts f (flushPending m) (flushPending m) :=
  withPending_recasts (each_recasts placeTrailing_recasts)

theorem makeRoom_recasts (next : Nat) : Recasts f (makeRoom m next) (makeRoom m next) := by
  intro c
  -- the tests look at columns only, and these are the same on both sides
  show (if fits m c (runsWidth (c.pending.map (Run.recast f)) + next) then _
    else if 0 < c.column then _ else _ : List Placed × Cursor) = _
  unfold makeRoom
  rw [runsWidth_recast]
  split
  · exact commitPending_recasts c
  · split
    · exact wrap_recasts c
    · exact dropPendingBlanks_recasts c

theorem placeCluster_recasts (cluster : Text) :
    Recasts f (placeCluster m cluster) (placeCluster m cluster) := by
  intro c
  show (if 0 < c.column && !fits m c (Text.width cluster) then _ else _ : List Placed × Cursor) = _
  unfold placeCluster
  split
  · exact wrap_recasts.andThen (place_recasts (.text cluster)) c
  · exact place_recasts (.text cluster) c

theorem placeDense_recasts (r : Run) :
    Recasts f (placeDense m r) (placeDense m (r.recast f)) := by
  cases r with
  | style codes active => exact place_recasts (.style codes active)
  | text t =>
    have h := each_recasts (f := f) (g := id) (placeCluster_recasts (m := m)) (Text.clusters t)
    rw [List.map_id] at h
    exact h

/-- **The layout of a recast unit.** -/
theorem ofUnit_recasts (u : LayoutUnit) :
    Recasts f (ofUnit m u) (ofUnit m (u.recast f)) := by
  cases u with
  | newline => exact flushPending_recasts.andThen (endLine_recasts fun _ => rfl)
  | blank t => exact wait_recasts rfl
  | word parts =>
    unfold ofUnit LayoutUnit.recast
    dsimp only
    rw [any_isText_recast, runsWidth_recast, firstClusterWidth_recast]
    split
    · exact wait_recasts rfl
    · split
      · exact (makeRoom_recasts _).andThen (each_recasts placeDense_recasts parts)
      · exact (makeRoom_recasts _).andThen (each_recasts place_recasts parts)

end Step

/-! ## §3. Texts. -/

/-- **What is put down for recast runs** is what is put down for the runs, recast. -/
theorem placements_recast (m : Measure) (rs : List Run) :
    placements m (rs.map (Run.recast f)) = (placements m rs).map (Placed.recast f) := by
  have hunits : LayoutUnit.ofRuns [] (rs.map (Run.recast f))
      = (LayoutUnit.ofRuns [] rs).map (LayoutUnit.recast f) := ofRuns_recast [] rs
  have hstop : Step.Recasts f (Step.endLine .stop) (Step.endLine .stop) :=
    Step.endLine_recasts fun _ => rfl
  have hall := (Step.each_recasts (Step.ofUnit_recasts (f := f) (m := m))
    (LayoutUnit.ofRuns [] rs)).andThen
      ((Step.flushPending_recasts (m := m)).andThen hstop) Cursor.start
  unfold placements
  rw [hunits]
  exact congrArg Prod.fst hall

/-- **The layout does not look into the styles**: entries may be recast if their codes stay the
same. -/
theorem layout_recast (hopens : ∀ e, (f e).opens = e.opens) (hcloses : ∀ e, (f e).closes = e.closes)
    (m : Measure) (rs : List Run) : layout m (rs.map (Run.recast f)) = layout m rs := by
  have hending : ∀ active : List Entry, Text.ending (active.map f) = Text.ending active := by
    intro active
    unfold Text.ending
    rw [closings_recast hcloses, List.isEmpty_map]
  unfold layout
  rw [placements_recast, List.flatMap_map]
  refine List.flatMap_congr fun p _ => ?_
  cases p with
  | run r => cases r <;> rfl
  | wrap active =>
    show closings (active.map f) ++ _ ++ '\n' :: openings (active.map f) = _
    rw [closings_recast hcloses, openings_recast hopens]
    rfl
  | newline active =>
    show Text.ending (active.map f) ++ '\n' :: openings (active.map f) = _
    rw [hending, openings_recast hopens]
    rfl
  | stop active => exact hending active

end TermMarkup
