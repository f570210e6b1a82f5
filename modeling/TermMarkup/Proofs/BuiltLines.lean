/-
  TermMarkup.Proofs.BuiltLines
  ────────────────────────────
  A BUILDER DOES WHAT THE LAYOUT DOES.  The layout moves a cursor over compiled
  runs and cannot fail; a builder has a stack in the cursor's place and tokens
  where the layout has runs, and fails at the first token that the stack refuses.
  From a builder on, each of its steps compiles the tokens that it emits, from the
  stack that the builder holds, and writes what the layout puts down for their
  runs.  That is an equation: it says as well when the step fails, and with which
  fault.

  What waits on the builder has not acted on its stack yet.  Whichever way a step
  takes with the waiting tokens, it compiles all of them, in their order, before
  anything that comes behind them.

    • `Builder.took` — the builder that has written what a layout puts down,
    • `Way`, `each_way` — the ways of emitting, and the steps of the layout that
      they come to,
    • `emitPending_eq`, `breakLine_eq`, `placeSeparator_eq` — what becomes of the
      waiting tokens on each way,
    • `add_waits`, `add_taken` — one unit,
    • `build_eq` — all units, to the end of the text,
    • `reshape_eq_wrap` — a builder wraps a text as the layout does.
-/
import TermMarkup.Proofs.TokenUnits
import Mathlib.Data.List.Basic

namespace TermMarkup

/-! ## §1. Pages. -/

/-- What has been written: finished lines, and the line that is being written. -/
structure Page where
  lines : List Text
  line : Text

namespace Page

/-- Writes what is put down. -/
def put (page : Page) : Placed → Page
  | .run r => ⟨page.lines, page.line ++ r.written⟩
  | .wrap active =>
    ⟨page.lines ++ [page.line ++ (closings active ++ Sgr.reset)], openings active⟩
  | .newline active => ⟨page.lines ++ [page.line ++ Text.ending active], openings active⟩
  | .stop active => ⟨page.lines, page.line ++ Text.ending active⟩

/-- Writes all that is put down. -/
def putAll (page : Page) (ps : List Placed) : Page := ps.foldl put page

theorem putAll_append (page : Page) (ps qs : List Placed) :
    page.putAll (ps ++ qs) = (page.putAll ps).putAll qs := List.foldl_append

/-- The text of the page. -/
def text (page : Page) : Text := (page.lines.flatMap fun line => line ++ ['\n']) ++ page.line

/-- The lines of the page. -/
def all (page : Page) : List Text := page.lines ++ [page.line]

theorem unlines_all (page : Page) : Text.unlines page.all = page.text := by
  obtain ⟨ls, t⟩ := page
  show Text.unlines (ls ++ [t]) = (ls.flatMap fun line => line ++ ['\n']) ++ t
  induction ls with
  | nil => exact Text.unlines_singleton t
  | cons l ls ih =>
    obtain ⟨u, us, hu⟩ : ∃ u us, ls ++ [t] = u :: us := by cases ls <;> exact ⟨_, _, rfl⟩
    rw [List.cons_append, hu, Text.unlines_cons_cons, ← hu, ih, List.flatMap_cons,
      List.append_assoc, List.append_assoc]
    rfl

/-- **The text of a page grows by what is written.** -/
theorem text_put (page : Page) (p : Placed) : (page.put p).text = page.text ++ p.written := by
  unfold text
  cases p with
  | run r => exact (List.append_assoc _ _ _).symm
  | stop active => exact (List.append_assoc _ _ _).symm
  | wrap active | newline active => simp [put, Placed.written]

theorem text_putAll (page : Page) (ps : List Placed) :
    (page.putAll ps).text = page.text ++ ps.flatMap Placed.written := by
  induction ps generalizing page with
  | nil => exact (List.append_nil _).symm
  | cons p ps ih =>
    show ((page.put p).putAll ps).text = _
    rw [ih, text_put, List.flatMap_cons, List.append_assoc]

end Page

/-! ## §2. Builders and cursors. -/

namespace Builder

/-- What the builder has written. -/
def page (b : Builder) : Page := ⟨b.lines, b.line⟩

/-- The place of the layout at which the builder is, if `rs` are the runs of what waits. -/
def cursor (b : Builder) (rs : List Run) : Cursor := ⟨b.column, rs, b.stack.entries⟩

/-- The builder behind what the layout puts down, with the stack `s`. -/
def took (b : Builder) (out : List Placed × Cursor) (s : Stack) : Builder :=
  { b with
    lines := (b.page.putAll out.1).lines
    line := (b.page.putAll out.1).line
    column := out.2.column
    stack := s }

/-- The builder as it is when nothing waits any more. -/
def cleared (b : Builder) : Builder := { b with pending := [], pendingWidth := 0 }

variable {theme : Theme} {m : Measure} {b : Builder} {s s' : Stack}

/-- What is put down by two steps, one after the other. -/
theorem took_took (out out' : List Placed × Cursor) :
    (b.took out s).took out' s' = b.took (out.1 ++ out'.1, out'.2) s' := by
  unfold took
  rw [Page.putAll_append]
  rfl

/-- The cursor that the layout leaves is that of the builder. -/
theorem cursor_took {out : List Placed × Cursor} (hpending : out.2.pending = [])
    (hactive : out.2.active = s.entries) : (b.took out s).cursor [] = out.2 := by
  show (⟨out.2.column, [], s.entries⟩ : Cursor) = out.2
  rw [← hpending, ← hactive]

/-- Steps that leave nothing waiting leave nothing waiting one after the other, and the styles open
that they leave in turn. -/
theorem each_keeps {α : Type} {step : α → Step} (after : List Entry → α → List Entry)
    (h : ∀ x c, c.pending = [] →
      (step x c).2.pending = [] ∧ (step x c).2.active = after c.active x)
    (xs : List α) {c : Cursor} (hc : c.pending = []) :
    (Step.each step xs c).2.pending = []
      ∧ (Step.each step xs c).2.active = xs.foldl after c.active := by
  induction xs generalizing c with
  | nil => exact ⟨hc, rfl⟩
  | cons x xs ih =>
    obtain ⟨hpending, hactive⟩ := h x c hc
    have hrest := ih hpending
    rw [hactive] at hrest
    exact hrest

/-! ## §3. Ways of emitting. -/

/-- A way of emitting tokens, for builders that are `ready` for it: text becomes what the steps of
the layout put down for it, and the layout places the style runs. -/
structure Way (ready : Builder → Prop) (onText : Text → Build) (image : Run → Step) :
    Prop where
  stays : ∀ b out s, ready b → ready (b.took out s)
  text : ∀ t (b : Builder), ready b →
    onText t b = .ok (b.took (image (.text t) (b.cursor [])) b.stack)
  place : ∀ codes active, image (.style codes active) = Step.place (.style codes active)
  keeps : ∀ t c, c.pending = [] →
    (image (.text t) c).2.pending = [] ∧ (image (.text t) c).2.active = c.active

variable {ready : Builder → Prop} {parts : List Token} {rs : List Run} {onText : Text → Build}
  {image : Run → Step}

theorem emitBy_style {tok : Token} (h : tok.isLiteral = false) :
    emitBy theme onText tok = emitStyle theme tok := by
  cases tok with
  | literal t => exact nomatch h
  | _ => rfl

/-- The layout leaves nothing waiting, and the styles open that the run leaves. -/
theorem Way.image_keeps (h : Way ready onText image) (r : Run) {c : Cursor}
    (hc : c.pending = []) :
    (image r c).2.pending = [] ∧ (image r c).2.active = r.after c.active := by
  cases r with
  | text t => exact h.keeps t c hc
  | style codes active =>
    rw [h.place]
    exact ⟨hc, rfl⟩

theorem Way.each_keeps (h : Way ready onText image) (rs : List Run) {c : Cursor}
    (hc : c.pending = []) :
    (Step.each image rs c).2.pending = []
      ∧ (Step.each image rs c).2.active = rs.foldl Run.after c.active :=
  Builder.each_keeps Run.after (fun r _ hc => h.image_keeps r hc) rs hc

/-- **Tokens that are emitted in one way**: they are compiled from the stack of the builder, and
their runs are laid out from its cursor. -/
theorem each_way (h : Way ready onText image) (parts : List Token) {b : Builder}
    (hb : ready b) :
    each (emitBy theme onText) parts b = compile theme b.stack parts >>= fun after =>
      .ok (b.took (Step.each image after.1 (b.cursor [])) after.2) := by
  induction parts generalizing b with
  | nil => rfl
  | cons tok parts ih =>
    -- the first token becomes a run, and the others go on from the builder behind it
    have hrest : ∀ (r : Run) (next : Stack), r.after b.stack.entries = next.entries →
        each (emitBy theme onText) parts (b.took (image r (b.cursor [])) next)
          = compile theme next parts >>= fun after =>
            .ok (b.took (Step.each image (r :: after.1) (b.cursor [])) after.2) := by
      intro r next hnext
      obtain ⟨hpending, hactive⟩ := h.image_keeps r (c := b.cursor []) rfl
      have hbehind := ih (h.stays b (image r (b.cursor [])) next hb)
      rw [cursor_took hpending (hactive.trans hnext)] at hbehind
      rw [hbehind]
      refine congrArg (compile theme next parts >>= ·) (funext fun after => congrArg _ ?_)
      exact took_took _ _
    cases hliteral : tok.isLiteral with
    | true =>
      cases tok with
      | literal t =>
        show (onText t b >>= each (emitBy theme onText) parts) = _
        rw [h.text t b hb, ok_bind, hrest (.text t) b.stack rfl]
        show _ = (compile theme b.stack parts >>= fun after => .ok (.text t :: after.1, after.2))
          >>= _
        cases compile theme b.stack parts <;> rfl
      | _ => exact nomatch hliteral
    | false =>
      show (emitBy theme onText tok b >>= each (emitBy theme onText) parts) = _
      rw [emitBy_style hliteral, compile_style hliteral]
      unfold emitStyle
      cases b.stack.apply theme tok with
      | error fault => rfl
      | ok result =>
        obtain ⟨codes, next⟩ := result
        have htook : b.took (image (.style codes next.entries) (b.cursor [])) next
            = { b with line := b.line ++ codes, stack := next } := by
          rw [h.place]
          rfl
        have hbehind := hrest (.style codes next.entries) next rfl
        rw [htook] at hbehind
        show each (emitBy theme onText) parts { b with line := b.line ++ codes, stack := next } = _
        rw [hbehind]
        show _ = (compile theme next parts >>= fun after =>
          .ok (.style codes next.entries :: after.1, after.2)) >>= _
        cases compile theme next parts <;> rfl

theorem keepText_way : Way (fun _ => True) keepText Step.place where
  stays _ _ _ h := h
  text _ _ _ := rfl
  place _ _ := rfl
  keeps _ _ hc := ⟨hc, rfl⟩

/-- Places a style run and leaves text out. -/
def placeStyleOnly : Run → Step
  | .text _ => Step.stay
  | r => Step.place r

theorem each_placeStyleOnly (rs : List Run) :
    Step.each placeStyleOnly rs = Step.each Step.place (rs.filter fun r => !r.isText) := by
  induction rs with
  | nil => rfl
  | cons r rs ih =>
    cases r with
    | text t =>
      show Step.andThen Step.stay (Step.each placeStyleOnly rs) = _
      rw [ih]
      rfl
    | style codes active =>
      show Step.andThen (Step.place (.style codes active)) (Step.each placeStyleOnly rs) = _
      rw [ih]
      rfl

theorem dropText_way : Way (fun _ => True) dropText placeStyleOnly where
  stays _ _ _ h := h
  text _ _ _ := rfl
  place _ _ := rfl
  keeps _ _ hc := ⟨hc, rfl⟩

theorem keepFitting_way (m : Measure) :
    Way (fun _ => True) (keepFitting m) (Step.placeTrailing m) where
  stays _ _ _ h := h
  text _ _ _ := rfl
  place _ _ := rfl
  keeps _ _ hc := ⟨hc, rfl⟩

/-! ## §4. What waits. -/

/-- A builder with nothing waiting. -/
def Clear (b : Builder) : Prop := b.cleared = b

theorem clear_cleared (b : Builder) : b.cleared.Clear := rfl

theorem Clear.took (hb : b.Clear) (out : List Placed × Cursor) (s : Stack) : (b.took out s).Clear :=
  congrArg (fun b : Builder => b.took out s) hb

/-- The next step from a builder goes on from the cursor behind the first one. -/
theorem took_then (first next : Step) {c : Cursor}
    (h : (b.took (first c) s).cursor [] = (first c).2) :
    (b.took (first c) s).took (next ((b.took (first c) s).cursor [])) s'
      = b.took (Step.andThen first next c) s' := by
  rw [h, took_took]
  rfl

/-- What waits on the cursor is laid out: nothing waits, and the styles are open that it leaves. -/
theorem withPending_keeps (h : Way ready onText image) (c : Cursor) :
    (Step.withPending (Step.each image) c).2.pending = []
      ∧ (Step.withPending (Step.each image) c).2.active = c.pending.foldl Run.after c.active :=
  h.each_keeps c.pending rfl

/-- **What waits is compiled as a whole**, and its runs are laid out in the place of what waits on
the cursor. -/
theorem emitPending_eq (h : Way (fun _ => True) onText image) (b : Builder) :
    emitPending theme onText b = compile theme b.stack b.pending >>= fun after =>
      .ok (b.cleared.took (Step.withPending (Step.each image) (b.cursor after.1)) after.2) := by
  unfold emitPending
  rw [each_way h b.pending trivial]
  cases compile theme b.stack b.pending <;> rfl

/-- Behind what waited, the cursor of the layout is that of the builder. -/
theorem cursor_waited {after : List Run × Stack}
    (hafter : compile theme b.stack b.pending = .ok after) {step : Step}
    (hstep : (step (b.cursor after.1)).2.pending = []
      ∧ (step (b.cursor after.1)).2.active = after.1.foldl Run.after b.stack.entries) :
    (b.cleared.took (step (b.cursor after.1)) after.2).cursor []
      = (step (b.cursor after.1)).2 :=
  cursor_took hstep.1 (hstep.2.trans (compile_matches hafter).active)

theorem dropPendingBlanks_eq :
    Step.dropPendingBlanks = Step.withPending (Step.each placeStyleOnly) := by
  unfold Step.dropPendingBlanks
  exact congrArg Step.withPending (funext fun rs => (each_placeStyleOnly rs).symm)

theorem finishLine_true (b : Builder) :
    b.finishLine true = b.took (Step.endLine .wrap (b.cursor [])) b.stack := rfl

theorem lineEnd_false (b : Builder) : b.lineEnd false = Text.ending b.stack.entries := by
  unfold lineEnd Text.ending
  cases b.stack.entries <;> rfl

theorem finishLine_false (b : Builder) :
    b.finishLine false = b.took (Step.endLine .newline (b.cursor [])) b.stack := by
  unfold finishLine
  rw [lineEnd_false]
  rfl

/-- **A wrap** compiles what waits and lays it out without its blanks. -/
theorem breakLine_eq (theme : Theme) (b : Builder) :
    breakLine theme b = compile theme b.stack b.pending >>= fun after =>
      .ok (b.cleared.took (Step.wrap (b.cursor after.1)) after.2) := by
  unfold breakLine
  rw [emitPending_eq dropText_way, ← dropPendingBlanks_eq]
  cases hafter : compile theme b.stack b.pending with
  | error e => rfl
  | ok after =>
    have hkeeps := withPending_keeps dropText_way (b.cursor after.1)
    rw [← dropPendingBlanks_eq] at hkeeps
    show Except.ok ((b.cleared.took (Step.dropPendingBlanks (b.cursor after.1)) after.2).finishLine
      true) = _
    rw [finishLine_true]
    exact congrArg Except.ok (took_then _ _ (cursor_waited hafter hkeeps))

/-- **The end of a line** compiles what waits and lays it out as far as it fits. -/
theorem endLine_eq (theme : Theme) (m : Measure) (b : Builder) :
    endLine theme m b = compile theme b.stack b.pending >>= fun after =>
      .ok (b.cleared.took (Step.ofUnit m .newline (b.cursor after.1)) after.2) := by
  unfold endLine
  rw [emitPending_eq (keepFitting_way m)]
  cases hafter : compile theme b.stack b.pending with
  | error e => rfl
  | ok after =>
    have hkeeps := withPending_keeps (keepFitting_way m) (b.cursor after.1)
    show Except.ok ((b.cleared.took (Step.flushPending m (b.cursor after.1)) after.2).finishLine
      false) = _
    rw [finishLine_false]
    exact congrArg Except.ok (took_then _ _ (cursor_waited hafter hkeeps))

/-- The builder counts the columns of what waits. -/
def Counted (b : Builder) : Prop := b.pendingWidth = tokensWidth b.pending

/-- **Room for a word** is made by each of three steps, and each of them compiles what waits. -/
theorem placeSeparator_eq (theme : Theme) (m : Measure) (next : Nat) (hb : b.Counted) :
    placeSeparator theme m next b = compile theme b.stack b.pending >>= fun after =>
      .ok (b.cleared.took (Step.makeRoom m next (b.cursor after.1)) after.2) := by
  unfold placeSeparator
  rw [emitPending_eq keepText_way, emitPending_eq dropText_way, breakLine_eq,
    ← dropPendingBlanks_eq]
  cases hafter : compile theme b.stack b.pending with
  | error e =>
    -- each of the three compiles what waits, so all of them fail
    split
    · rfl
    · split <;> rfl
  | ok after =>
    -- and builder and layout choose by the same columns
    have hwidth : b.pendingWidth = runsWidth after.1 :=
      hb.trans (compile_matches hafter).width.symm
    have hfits : b.fits m (b.pendingWidth + next)
        = Step.fits m (b.cursor after.1) (runsWidth (b.cursor after.1).pending + next) := by
      rw [hwidth]
      rfl
    unfold Step.makeRoom
    rw [hfits]
    simp only [ok_bind]
    by_cases hroom : Step.fits m (b.cursor after.1) (runsWidth (b.cursor after.1).pending + next)
    · rw [if_pos hroom, if_pos hroom]
      rfl
    · rw [if_neg hroom, if_neg hroom]
      by_cases hcolumn : 0 < b.column
      · rw [if_pos hcolumn, if_pos (show 0 < (b.cursor after.1).column from hcolumn)]
      · rw [if_neg hcolumn, if_neg (show ¬0 < (b.cursor after.1).column from hcolumn)]

theorem makeRoom_keeps (m : Measure) (next : Nat) (c : Cursor) :
    (Step.makeRoom m next c).2.pending = []
      ∧ (Step.makeRoom m next c).2.active = c.pending.foldl Run.after c.active := by
  have hdrop := withPending_keeps dropText_way c
  rw [← dropPendingBlanks_eq] at hdrop
  unfold Step.makeRoom
  split
  · exact withPending_keeps keepText_way c
  · split
    · exact hdrop
    · exact hdrop

/-! ## §5. Words. -/

/-- A cluster of a dense word: with nothing waiting, a wrap changes no style. -/
theorem addCluster_eq (theme : Theme) (m : Measure) (cluster : Text) (hb : b.Clear) :
    addCluster theme m cluster b
      = .ok (b.took (Step.placeCluster m cluster (b.cursor [])) b.stack) := by
  have hpending : b.pending = [] := congrArg Builder.pending hb.symm
  have hbreak : breakLine theme b = .ok (b.took (Step.wrap (b.cursor [])) b.stack) := by
    rw [breakLine_eq, hpending, compile_nil, ok_bind, show b.cleared = b from hb]
  have htest : (0 < b.column && !b.fits m (Text.width cluster))
      = (0 < (b.cursor []).column && !Step.fits m (b.cursor []) (Text.width cluster)) := rfl
  unfold addCluster Step.placeCluster
  rw [htest]
  split
  · have hcursor : (b.took (Step.wrap (b.cursor [])) b.stack).cursor []
        = (Step.wrap (b.cursor [])).2 := rfl
    have hemit : ∀ b : Builder,
        b.emitText cluster = b.took (Step.place (.text cluster) (b.cursor [])) b.stack :=
      fun _ => rfl
    rw [hbreak, ok_bind]
    exact congrArg Except.ok ((hemit _).trans (took_then _ _ hcursor))
  · rfl

theorem placeCluster_keeps (m : Measure) (cluster : Text) {c : Cursor} (hc : c.pending = []) :
    (Step.placeCluster m cluster c).2.pending = []
      ∧ (Step.placeCluster m cluster c).2.active = c.active := by
  unfold Step.placeCluster
  split
  · obtain ⟨column, pending, active⟩ := c
    obtain rfl : pending = [] := hc
    exact ⟨rfl, rfl⟩
  · exact ⟨hc, rfl⟩

/-- **The clusters of a dense word**, for a builder with nothing waiting. -/
theorem each_addCluster (theme : Theme) (m : Measure) (clusters : List Text) (hb : b.Clear) :
    each (addCluster theme m) clusters b
      = .ok (b.took (Step.each (Step.placeCluster m) clusters (b.cursor [])) b.stack) := by
  -- on the clusters: behind each of them nothing waits, so the next one goes the same way
  induction clusters generalizing b with
  | nil => rfl
  | cons cluster clusters ih =>
    obtain ⟨hpending, hactive⟩ := placeCluster_keeps m cluster (c := b.cursor []) rfl
    show (addCluster theme m cluster b >>= each (addCluster theme m) clusters) = _
    rw [addCluster_eq theme m cluster hb, ok_bind, ih (hb.took _ _)]
    exact congrArg Except.ok (took_then (Step.placeCluster m cluster)
      (Step.each (Step.placeCluster m) clusters) (cursor_took hpending hactive))

theorem addClusters_way (theme : Theme) (m : Measure) :
    Way Clear (addClusters theme m) (Step.placeDense m) where
  stays _ out s hb := hb.took out s
  text t _ hb := each_addCluster theme m (Text.clusters t) hb
  place _ _ := rfl
  keeps t c hc := by
    have hkeeps := each_keeps (fun active _ => active)
      (fun cluster _ hc => placeCluster_keeps m cluster hc) (Text.clusters t) hc
    rw [List.foldl_fixed] at hkeeps
    exact hkeeps

/-- **Room is made, and then the parts of a word are emitted** in some way: what waits is compiled
first, the parts behind it. -/
theorem placeSeparator_then (h : Way ready onText image) (m : Measure) (next : Nat)
    (hb : b.Counted) (hready : ∀ out s, ready (b.cleared.took out s)) (parts : List Token) :
    (placeSeparator theme m next b >>= each (emitBy theme onText) parts)
      = compile theme b.stack b.pending >>= fun first =>
        compile theme first.2 parts >>= fun word =>
          .ok (b.cleared.took (Step.andThen (Step.makeRoom m next) (Step.each image word.1)
            (b.cursor first.1)) word.2) := by
  rw [placeSeparator_eq theme m next hb]
  cases hfirst : compile theme b.stack b.pending with
  | error e => rfl
  | ok first =>
    have hcursor := cursor_waited hfirst (makeRoom_keeps m next (b.cursor first.1))
    simp only [ok_bind]
    rw [each_way h parts (hready _ _)]
    refine congrArg (compile theme first.2 parts >>= ·) (funext fun word => ?_)
    exact congrArg Except.ok (took_then _ (Step.each image word.1) hcursor)

/-- The first text of a word is the first text of its runs. -/
theorem find?_isText (h : rs.map Run.isText = parts.map Token.isLiteral)
    (hliteral : rs.map Run.literal = parts.map Token.plain) :
    (rs.find? Run.isText).map Run.literal = (parts.find? Token.isLiteral).map Token.plain := by
  induction rs generalizing parts with
  | nil =>
    rw [List.map_eq_nil_iff.mp h.symm]
    rfl
  | cons r rs ih =>
    obtain ⟨tok, rest, rfl, htok, hrest⟩ := List.map_eq_cons_iff.mp h.symm
    obtain ⟨hplain, hplains⟩ := List.cons.inj hliteral
    rw [List.find?_cons, List.find?_cons, htok]
    split
    · exact congrArg some hplain
    · exact ih hrest.symm hplains

/-- **A dense word has a first cluster**, and it is that of the runs of the word. -/
theorem exists_first_cluster (hinked : (TokenUnit.word parts).Inked)
    (htext : parts.any Token.isLiteral = true) :
    ∃ first cluster more,
      parts.find? (fun token => token.isLiteral && !token.plain.isEmpty) = some first
        ∧ Text.clusters first.plain = cluster :: more
        ∧ ∀ s rs s', Matches s parts rs s' → firstClusterWidth rs = Text.width cluster := by
  -- no text of the word is empty, so the first text is the first that is not
  have hsame : parts.find? (fun token => token.isLiteral && !token.plain.isEmpty)
      = parts.find? Token.isLiteral := by
    rw [← List.head?_filter, ← List.head?_filter]
    refine congrArg List.head? (List.filter_congr fun tok htok => ?_)
    cases tok with
    | literal t =>
      cases t with
      | nil => exact absurd rfl (hinked [] htok)
      | cons c t => rfl
    | _ => rfl
  obtain ⟨tok, htok, hliteral⟩ := List.any_eq_true.mp htext
  obtain ⟨first, hfirst⟩ := Option.isSome_iff_exists.mp
    (List.find?_isSome.mpr ⟨tok, htok, hliteral⟩)
  have hmem := List.mem_of_find?_eq_some hfirst
  have hkind := List.find?_some hfirst
  cases hclusters : Text.clusters first.plain with
  | nil =>
    have hflatten := Text.clusters_flatten first.plain
    rw [hclusters] at hflatten
    cases first with
    | literal t => exact absurd hflatten.symm (hinked t hmem)
    | _ => exact nomatch hkind
  | cons cluster more =>
    refine ⟨first, cluster, more, hsame.trans hfirst, hclusters, fun s rs s' h => ?_⟩
    have hfind := find?_isText h.isText h.literal
    rw [hfirst] at hfind
    obtain ⟨r, hr, hplain⟩ := Option.map_eq_some_iff.mp hfind
    unfold firstClusterWidth
    rw [hr]
    show Text.width ((Text.clusters r.literal).headD []) = _
    rw [hplain, hclusters]
    rfl

/-- **A word with text** goes where the layout places the word of its runs. -/
theorem addWord_eq (theme : Theme) (m : Measure) (hb : b.Counted)
    (hinked : (TokenUnit.word parts).Inked) (htext : parts.any Token.isLiteral = true) :
    add theme m (.word parts) b = compile theme b.stack b.pending >>= fun first =>
      compile theme first.2 parts >>= fun word =>
        .ok (b.cleared.took (Step.ofUnit m (.word word.1) (b.cursor first.1)) word.2) := by
  have hnone : ¬(!parts.any Token.isLiteral) = true := by simp [htext]
  unfold add
  simp only [if_neg hnone]
  -- the layout sorts the word as the builder does
  have hword : ∀ {s : Stack} {word : List Run × Stack}, compile theme s parts = .ok word →
      (!word.1.any Run.isText) = false ∧ runsWidth word.1 = tokensWidth parts := by
    intro s word hcompiled
    have hmatches := compile_matches hcompiled
    rw [hmatches.any_isText, htext]
    exact ⟨rfl, hmatches.width⟩
  by_cases hdense : m.threshold < tokensWidth parts
  · rw [if_pos hdense]
    obtain ⟨first, cluster, more, hfirst, hclusters, hwidth⟩ := exists_first_cluster hinked htext
    unfold addDense
    simp only [hfirst, hclusters]
    rw [placeSeparator_then (addClusters_way theme m) m _ hb
      fun out s => (clear_cleared b).took out s]
    refine congrArg (compile theme b.stack b.pending >>= ·) (funext fun first => ?_)
    cases hcompiled : compile theme first.2 parts with
    | error e => rfl
    | ok word =>
      obtain ⟨hany, hsame⟩ := hword hcompiled
      simp only [ok_bind, Step.ofUnit, hany, hsame, hdense, if_true, Bool.false_eq_true, if_false,
        hwidth _ _ _ (compile_matches hcompiled)]
  · rw [if_neg hdense]
    rw [placeSeparator_then keepText_way m _ hb fun _ _ => trivial]
    refine congrArg (compile theme b.stack b.pending >>= ·) (funext fun first => ?_)
    cases hcompiled : compile theme first.2 parts with
    | error e => rfl
    | ok word =>
      obtain ⟨hany, hsame⟩ := hword hcompiled
      simp only [ok_bind, Step.ofUnit, hany, hsame, hdense, Bool.false_eq_true, if_false]

/-! ## §6. Units. -/

/-- Whether the unit waits for the next word, as blanks do and words without text. -/
def waits : TokenUnit → Bool
  | .word parts => !parts.any Token.isLiteral
  | .blank _ => true
  | .newline => false

/-- Tokens without text take no columns. -/
theorem tokensWidth_eq_zero (h : parts.any Token.isLiteral = false) : tokensWidth parts = 0 := by
  induction parts with
  | nil => rfl
  | cons tok parts ih =>
    obtain ⟨htok, hparts⟩ := Bool.or_eq_false_iff.mp h
    show Text.width tok.plain + tokensWidth parts = 0
    rw [ih hparts]
    cases tok with
    | literal t => exact nomatch htok
    | _ => rfl

/-- **A unit that waits** joins what waits, on the builder and on the cursor. -/
theorem add_waits {u : TokenUnit} (hu : waits u = true) (theme : Theme) (m : Measure)
    (b : Builder) :
    add theme m u b = .ok (b.wait u.tokens (tokensWidth u.tokens))
      ∧ ∀ s word, compile theme s u.tokens = .ok word → ∀ c,
        Step.ofUnit m (u.compiled word.1) c = ([], { c with pending := c.pending ++ word.1 }) := by
  cases u with
  | newline => exact nomatch hu
  | blank t =>
    refine ⟨rfl, fun s word hword c => ?_⟩
    obtain rfl := Except.ok.inj hword
    rfl
  | word parts =>
    have hnone : parts.any Token.isLiteral = false := by simpa [waits] using hu
    refine ⟨?_, fun s word hword c => ?_⟩
    · simp [add, TokenUnit.tokens, hnone, tokensWidth_eq_zero hnone]
    · have hany : word.1.any Run.isText = false := (compile_matches hword).any_isText.trans hnone
      simp [Step.ofUnit, TokenUnit.compiled, hany]

/-- **A unit that does not wait** is compiled behind what waits, and laid out behind it. -/
theorem add_taken {u : TokenUnit} (hu : waits u = false) (theme : Theme) (m : Measure)
    (hb : b.Counted) (hinked : u.Inked) :
    add theme m u b = compile theme b.stack b.pending >>= fun first =>
      compile theme first.2 u.tokens >>= fun word =>
        .ok (b.cleared.took (Step.ofUnit m (u.compiled word.1) (b.cursor first.1)) word.2) := by
  cases u with
  | newline => exact endLine_eq theme m b
  | blank t => exact nomatch hu
  | word parts => exact addWord_eq theme m hb hinked (by simpa [waits] using hu)

/-- Behind a unit that does not wait, nothing waits, and the styles are open that it leaves. -/
theorem ofUnit_keeps {u : TokenUnit} (hu : waits u = false) (m : Measure) {word : List Run × Stack}
    (hword : compile theme s u.tokens = .ok word) (c : Cursor) :
    (Step.ofUnit m (u.compiled word.1) c).2.pending = []
      ∧ (Step.ofUnit m (u.compiled word.1) c).2.active
        = word.1.foldl Run.after (c.pending.foldl Run.after c.active) := by
  cases u with
  | newline =>
    obtain rfl := Except.ok.inj hword
    exact withPending_keeps (keepFitting_way m) c
  | blank t => exact nomatch hu
  | word parts =>
    have hany : ¬(!word.1.any Run.isText) = true := by
      rw [(compile_matches hword).any_isText]
      exact Bool.eq_false_iff.mp hu
    -- room is made first, and the parts leave what the way of emitting them leaves
    have hparts : ∀ {ready : Builder → Prop} {onText : Text → Build} {image : Run → Step}
        (_ : Way ready onText image) (next : Nat),
        (Step.andThen (Step.makeRoom m next) (Step.each image word.1) c).2.pending = []
          ∧ (Step.andThen (Step.makeRoom m next) (Step.each image word.1) c).2.active
            = word.1.foldl Run.after (c.pending.foldl Run.after c.active) := by
      intro ready onText image h next
      obtain ⟨hpending, hactive⟩ := makeRoom_keeps m next c
      rw [← hactive]
      exact h.each_keeps word.1 hpending
    show (Step.ofUnit m (.word word.1) c).2.pending = []
      ∧ (Step.ofUnit m (.word word.1) c).2.active = _
    unfold Step.ofUnit
    simp only [if_neg hany]
    split
    · exact hparts (addClusters_way theme m) _
    · exact hparts keepText_way _

/-! ## §7. Texts. -/

/-- What the layout puts down for units and the end of the text. -/
def laidOut (m : Measure) (units : List LayoutUnit) (c : Cursor) : List Placed :=
  (Step.andThen (Step.each (Step.ofUnit m) units)
    (Step.andThen (Step.flushPending m) (Step.endLine .stop)) c).1

theorem laidOut_cons (m : Measure) (u : LayoutUnit) (units : List LayoutUnit) (c : Cursor) :
    laidOut m (u :: units) c
      = (Step.ofUnit m u c).1 ++ laidOut m units (Step.ofUnit m u c).2 :=
  List.append_assoc _ _ _

/-- **The end of a text** compiles what waits. -/
theorem finish_eq (theme : Theme) (m : Measure) (b : Builder) :
    finish theme m b = compile theme b.stack b.pending >>= fun after =>
      .ok (b.page.putAll (laidOut m [] (b.cursor after.1))).all := by
  unfold finish
  rw [emitPending_eq (keepFitting_way m)]
  cases hafter : compile theme b.stack b.pending with
  | error e => rfl
  | ok after =>
    have hactive : (Step.flushPending m (b.cursor after.1)).2.active = after.2.entries :=
      (withPending_keeps (keepFitting_way m) (b.cursor after.1)).2.trans
        (compile_matches hafter).active
    have hput : b.page.putAll (laidOut m [] (b.cursor after.1))
        = (b.cleared.took (Step.flushPending m (b.cursor after.1)) after.2).page.put
          (.stop after.2.entries) := by
      rw [← hactive]
      exact Page.putAll_append b.page (Step.flushPending m (b.cursor after.1)).1 _
    simp only [ok_bind, hput]
    refine congrArg Except.ok ?_
    rw [lineEnd_false]
    rfl

/-- **A builder builds the lines of the layout**: what waits is compiled, the units are compiled
behind it, and the lines are those on which the layout writes their runs. -/
theorem build_eq (theme : Theme) (m : Measure) (us : List TokenUnit) (hb : b.Counted)
    (hinked : ∀ u ∈ us, u.Inked) :
    (each (add theme m) us b >>= finish theme m)
      = compile theme b.stack b.pending >>= fun first =>
        compileUnits theme first.2 us >>= fun units =>
          .ok (b.page.putAll (laidOut m units (b.cursor first.1))).all := by
  -- on the units, for any builder: what waits on it is carried along until something takes it
  induction us generalizing b with
  | nil => exact finish_eq theme m b
  | cons u us ih =>
    obtain ⟨hu, hus⟩ := List.forall_mem_cons.mp hinked
    show ((add theme m u b >>= each (add theme m) us) >>= finish theme m) = _
    cases hwaits : waits u with
    | true =>
      -- it joins what waits, and is compiled right behind that in the end
      obtain ⟨hadd, hunit⟩ := add_waits hwaits theme m b
      have hcounted : (b.wait u.tokens (tokensWidth u.tokens)).Counted := by
        show b.pendingWidth + tokensWidth u.tokens = tokensWidth (b.pending ++ u.tokens)
        rw [tokensWidth_append, hb]
      rw [hadd, ok_bind, ih hcounted hus]
      show compile theme b.stack (b.pending ++ u.tokens) >>= _ = _
      rw [compile_append]
      cases compile theme b.stack b.pending with
      | error e => rfl
      | ok first =>
        simp only [ok_bind, compileUnits]
        cases hword : compile theme first.2 u.tokens with
        | error e => rfl
        | ok word =>
          simp only [ok_bind]
          cases compileUnits theme word.2 us with
          | error e => rfl
          | ok units =>
            show Except.ok _ = Except.ok _
            rw [laidOut_cons, hunit _ _ hword]
            rfl
    | false =>
      -- it takes what waits along, and nothing waits behind it
      rw [add_taken hwaits theme m hb hu]
      cases hfirst : compile theme b.stack b.pending with
      | error e => rfl
      | ok first =>
        simp only [ok_bind, compileUnits]
        cases hword : compile theme first.2 u.tokens with
        | error e => rfl
        | ok word =>
          obtain ⟨hpending, hactive⟩ := ofUnit_keeps hwaits m hword (b.cursor first.1)
          have hcursor := cursor_took (b := b.cleared) hpending (hactive.trans (by
            rw [← (compile_matches hword).active, ← (compile_matches hfirst).active]
            rfl))
          have hrest := ih (b := b.cleared.took
            (Step.ofUnit m (u.compiled word.1) (b.cursor first.1)) word.2) rfl hus
          simp only [ok_bind]
          rw [hrest]
          show compileUnits theme word.2 us >>= _ = _
          cases compileUnits theme word.2 us with
          | error e => rfl
          | ok units =>
            refine congrArg (fun page : Page => Except.ok page.all) ?_
            show ((b.page.putAll (Step.ofUnit m (u.compiled word.1) (b.cursor first.1)).1).putAll
              (laidOut m units _)) = _
            rw [hcursor, laidOut_cons, Page.putAll_append]

end Builder

/-- **The lines of tokens** are those on which the layout writes their runs. -/
theorem lines_ofTokens (theme : Theme) (m : Measure) (ts : List Token) :
    (Builder.each (Builder.add theme m) (TokenUnit.ofTokens [] ts) Builder.start
        >>= Builder.finish theme m)
      = compile theme Stack.empty ts >>= fun after =>
        .ok (Builder.start.page.putAll (placements m after.1)).all := by
  rw [Builder.build_eq theme m _ (b := Builder.start) rfl
    (ofTokens_inked ts [] fun t ht => nomatch ht)]
  show compileUnits theme Stack.empty (TokenUnit.ofTokens [] ts) >>= _ = _
  rw [compileUnits_ofTokens]
  show (compile theme Stack.empty ts >>= fun after => .ok (LayoutUnit.ofRuns [] after.1)) >>= _ = _
  cases compile theme Stack.empty ts <;> rfl

/-- **A builder wraps a text as the layout does**, and fails with the same fault; it finds a text in
each dense word, and a cluster in that text. -/
theorem reshape_eq_wrap (theme : Theme) (t : Text) (width : Int) (threshold? : Option Int) :
    Text.reshape theme t width threshold?
      = (Text.wrap theme t width threshold?).mapError BuildFault.fault := by
  unfold Text.reshape Text.wrap Text.runs
  cases t.tokens with
  | error fault => rfl
  | ok ts =>
    have hruns := ofTokens_eq_compile theme Stack.empty ts
    show (Builder.each (Builder.add theme ⟨width, threshold?.getD width⟩)
      (TokenUnit.ofTokens [] ts) Builder.start >>= fun b =>
        b.finish theme ⟨width, threshold?.getD width⟩ >>= fun ls => .ok (Text.unlines ls))
      = (Run.ofTokens theme Stack.empty ts >>= fun rs =>
        .ok (layout ⟨width, threshold?.getD width⟩ rs)).mapError BuildFault.fault
    rw [← bind_assoc, lines_ofTokens]
    cases hrun : Run.ofTokens theme Stack.empty ts <;>
      cases hcompile : compile theme Stack.empty ts <;> rw [hrun, hcompile] at hruns
    · obtain rfl := Except.error.inj hruns
      rfl
    · exact nomatch hruns
    · exact nomatch hruns
    · obtain rfl := Except.ok.inj hruns
      refine congrArg Except.ok ?_
      rw [Page.unlines_all, Page.text_putAll]
      rfl

end TermMarkup
