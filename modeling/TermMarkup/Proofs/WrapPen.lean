/-
  TermMarkup.Proofs.WrapPen
  ─────────────────────────
  WRAPPING KEEPS STYLES.  What a terminal shows depends on the items alone: each
  character that is not blank is shown with the pen of the styles that are open
  there.  A layout keeps the items in their order, and at a line end it writes
  what turns the pen blank and then into what it was.

    • `Text.Shows` — what a text shows, and the pen that it leaves,
    • `Item.shown`, `runs_shows` — what coherent items show,
    • `Move.shows`, `Lays.shows` — one move, and a run of moves,
    • `wrap_keeps_styles` — wrapped text shows what the compiled text shows.
-/
import TermMarkup.Proofs.Compiled

namespace TermMarkup

/-! ## §1. What a text shows. -/

/-- The characters with their pens that are not blank. -/
def inked (cs : List (Char × Pen)) : List (Char × Pen) := cs.filter fun shown => !isBlank shown.1

/-- Read with `pen`, whatever follows, the text shows `cs` apart from blanks and leaves `pen'`. -/
def Text.Shows (t : Text) (pen : Pen) (cs : List (Char × Pen)) (pen' : Pen) : Prop :=
  ∃ ss : List Signal, t.Emits ss ∧ inked (pen.display ss) = cs ∧ pen.follow ss = pen'

namespace Text.Shows

theorem nil (pen : Pen) : Shows [] pen [] pen := ⟨[], Emits.nil, rfl, rfl⟩

theorem append {a b : Text} {pen pen' pen'' : Pen} {cs ds : List (Char × Pen)}
    (ha : Shows a pen cs pen') (hb : Shows b pen' ds pen'') :
    Shows (a ++ b) pen (cs ++ ds) pen'' := by
  obtain ⟨ss, hss, hcs, hpen⟩ := ha
  obtain ⟨ts, hts, hds, hpen'⟩ := hb
  refine ⟨ss ++ ts, hss.append hts, ?_, ?_⟩
  · rw [Pen.display_append, hpen]
    unfold inked at hcs hds ⊢
    rw [List.filter_append, hcs, hds]
  · rw [Pen.follow_append, hpen, hpen']

theorem plain {u : Text} (hu : Sgr.escape ∉ u) (pen : Pen) :
    Shows u pen (inked (u.map fun c => (c, pen))) pen :=
  ⟨u.map .glyph, Emits.plain hu, by rw [Pen.display_glyphs], Pen.follow_glyphs pen u⟩

theorem turns {t : Text} {f : Pen → Pen} (h : Turns t f) (pen : Pen) :
    Shows t pen [] (f pen) := by
  obtain ⟨es, hes, hf⟩ := h.effects
  refine ⟨es.map .effect, hes, ?_, ?_⟩
  · rw [Pen.display_effects]
    rfl
  · rw [Pen.follow_effects, hf]

theorem displayedInk {t : Text} {cs : List (Char × Pen)} {pen : Pen}
    (h : Shows t Pen.blank cs pen) : t.displayedInk = .ok cs := by
  obtain ⟨ss, hss, rfl, -⟩ := h
  exact hss.displayedInk

end Text.Shows

/-! ## §2. What items show. -/

namespace Item

/-- What items show, apart from blanks. -/
def shown (active : List Entry) : List Item → List (Char × Pen)
  | [] => []
  | char c :: rest => inked [(c, Pen.ofEntries active)] ++ shown active rest
  | style _ active :: rest => shown active rest

theorem shown_append (active : List Entry) (xs ys : List Item) :
    shown active (xs ++ ys) = shown active xs ++ shown (xs.foldl after active) ys := by
  induction xs generalizing active with
  | nil => rfl
  | cons x xs ih =>
    cases x with
    | char c =>
      show _ ++ shown active (xs ++ ys) = (_ ++ shown active xs) ++ _
      rw [ih, List.append_assoc]
      rfl
    | style codes next => exact ih next

theorem shown_chars (active : List Entry) (t : Text) :
    shown active (t.map char) = inked (t.map fun c => (c, Pen.ofEntries active)) := by
  induction t with
  | nil => rfl
  | cons c t ih =>
    rw [List.map_cons, List.map_cons]
    show _ ++ shown active (t.map char) = _
    rw [ih]
    exact (List.filter_append [(c, Pen.ofEntries active)] _).symm

theorem shown_blanks (active : List Entry) {t : Text} (ht : ∀ c ∈ t, isBlank c = true) :
    shown active (t.map char) = [] := by
  rw [shown_chars]
  refine List.filter_eq_nil_iff.mpr fun p hp => ?_
  obtain ⟨c, hc, rfl⟩ := List.mem_map.mp hp
  simp [ht c hc]

end Item

/-- A run that is written shows what its items show. -/
theorem run_shows {r : Run} {active : List Entry} (h : Item.Coherent active r.items)
    (hplain : Item.char Sgr.escape ∉ r.items) :
    Text.Shows r.written (Pen.ofEntries active) (Item.shown active r.items)
      (Pen.ofEntries (r.after active)) := by
  cases r with
  | text t =>
    show Text.Shows t _ (Item.shown active (t.map .char)) (Pen.ofEntries active)
    rw [Item.shown_chars]
    exact .plain (fun hmem => hplain (List.mem_map_of_mem hmem)) _
  | style codes next =>
    obtain ⟨-, ⟨f, hf, hpen⟩, -⟩ := h
    show Text.Shows codes _ [] (Pen.ofEntries next)
    rw [← hpen]
    exact .turns hf _

theorem runs_shows {rs : List Run} {active : List Entry}
    (h : Item.Coherent active (rs.flatMap Run.items))
    (hplain : Item.char Sgr.escape ∉ rs.flatMap Run.items) :
    Text.Shows (rs.flatMap Run.written) (Pen.ofEntries active)
      (Item.shown active (rs.flatMap Run.items)) (Pen.ofEntries (rs.foldl Run.after active)) := by
  induction rs generalizing active with
  | nil => exact .nil _
  | cons r rs ih =>
    rw [List.flatMap_cons] at h hplain
    obtain ⟨hfirst, hrest⟩ := Item.coherent_append.mp h
    rw [List.mem_append, not_or] at hplain
    rw [List.flatMap_cons, List.flatMap_cons, Item.shown_append]
    rw [foldl_after_run] at hrest ⊢
    exact (run_shows hfirst hplain.1).append (ih hrest hplain.2)

/-! ## §3. Line ends. -/

/-- **What ends the open styles turns their pen blank.** -/
theorem ending_turns {active : List Entry} (hs : ∀ e ∈ active, e.Sound) :
    ∃ f, (Text.ending active).Turns f ∧ f (Pen.ofEntries active) = Pen.blank := by
  unfold Text.ending
  split
  · next h =>
    rw [List.isEmpty_iff.mp h]
    exact ⟨id, .nil, rfl⟩
  · exact ⟨_, (turns_closings hs).append .reset, rfl⟩

theorem inked_newline (pen : Pen) : inked [('\n', pen)] = [] :=
  List.filter_cons_of_neg (by simp [isBlank_newline])

/-- A newline shows nothing but a blank. -/
theorem newline_shows (pen : Pen) : Text.Shows ['\n'] pen [] pen := by
  have hplain := Text.Shows.plain (u := ['\n']) (by decide) pen
  rw [List.map_singleton, inked_newline] at hplain
  exact hplain

/-- Codes that turn the pen blank, a newline, and the open styles again. -/
theorem lineEnd_shows {active : List Entry} (hs : ∀ e ∈ active, e.Sound) {codes : Text}
    {f : Pen → Pen} (hf : codes.Turns f) (hpen : f (Pen.ofEntries active) = Pen.blank) :
    Text.Shows (codes ++ '\n' :: openings active) (Pen.ofEntries active) []
      (Pen.ofEntries active) := by
  have hcodes := Text.Shows.turns hf (Pen.ofEntries active)
  rw [hpen] at hcodes
  have hopenings := Text.Shows.turns (turns_openings hs) Pen.blank
  exact hcodes.append ((newline_shows _).append hopenings)

/-! ## §4. Layouts. -/

variable {m : Measure}

variable {s s' : Spot} {w ws : List Material} {p ps : List Placed}

theorem shown_blank {t : Text} (ht : (Material.blank t).Proper) (active : List Entry) :
    Item.shown active ([Material.blank t].flatMap Material.items) = [] := by
  rw [List.flatMap_singleton]
  show Item.shown active ([Run.text t].flatMap Run.items) = []
  rw [List.flatMap_singleton]
  exact Item.shown_blanks active fun c hc => (ht c hc).1

/-- **A move shows what the items show that it takes in.** -/
theorem Move.shows (h : Move m s w p s') (hw : ∀ x ∈ w, x.Proper) (hs : ∀ e ∈ s.active, e.Sound)
    (hc : Item.Coherent s.active (w.flatMap Material.items))
    (hplain : Item.char Sgr.escape ∉ w.flatMap Material.items) :
    Text.Shows (p.flatMap Placed.written) (Pen.ofEntries s.active)
      (Item.shown s.active (w.flatMap Material.items)) (Pen.ofEntries s'.active) := by
  cases h with
  | style codes active =>
    have hc : Item.Coherent s.active ([Run.style codes active].flatMap Run.items) := hc
    exact runs_shows hc hplain
  | @keep t kept hkept hfits =>
    have ht : (Material.blank t).Proper := hw _ List.mem_cons_self
    have hblank : ∀ c ∈ kept, isBlank c = true := fun c hc => (ht c (hkept.subset hc)).1
    have hkept : Sgr.escape ∉ kept := fun hmem => absurd (hblank _ hmem) (by decide)
    have hshows := Text.Shows.plain hkept (Pen.ofEntries s.active)
    rw [← Item.shown_chars, Item.shown_blanks _ hblank] at hshows
    rw [shown_blank ht, List.flatMap_singleton]
    exact hshows
  | drop t =>
    rw [shown_blank (hw _ List.mem_cons_self)]
    exact .nil _
  | @solid parts hfits =>
    rw [List.flatMap_singleton] at hc hplain ⊢
    rw [flatMap_written_run]
    exact runs_shows hc hplain
  | newline =>
    -- with no style open the ending writes nothing, and the pen is blank already
    obtain ⟨f, hf, hpen⟩ := ending_turns hs
    rw [List.flatMap_singleton, List.flatMap_singleton]
    show Text.Shows _ _ (inked [('\n', Pen.ofEntries s.active)] ++ []) _
    rw [inked_newline]
    exact lineEnd_shows hs hf hpen
  | wrap hcolumn =>
    rw [List.flatMap_singleton]
    show Text.Shows _ _ [] _
    exact lineEnd_shows hs ((turns_closings hs).append .reset) rfl

/-- **A run of moves shows what the items show that it takes in.** -/
theorem Lays.shows (h : Lays m s ws ps s') (hw : ∀ x ∈ ws, x.Proper)
    (hs : ∀ e ∈ s.active, e.Sound) (hc : Item.Coherent s.active (ws.flatMap Material.items))
    (hplain : Item.char Sgr.escape ∉ ws.flatMap Material.items) :
    Text.Shows (ps.flatMap Placed.written) (Pen.ofEntries s.active)
        (Item.shown s.active (ws.flatMap Material.items)) (Pen.ofEntries s'.active)
      ∧ ∀ e ∈ s'.active, e.Sound := by
  -- on the run: a move leaves the pen of the styles that are open after its items
  induction h with
  | stay s => exact ⟨.nil _, hs⟩
  | @move s s' s'' w ws p ps hmove hrest ih =>
    rw [List.flatMap_append] at hc hplain
    obtain ⟨hfirst, hlater⟩ := Item.coherent_append.mp hc
    rw [List.mem_append, not_or] at hplain
    have hshows := hmove.shows (fun x hx => hw x (List.mem_append_left _ hx)) hs hfirst hplain.1
    have hs' := hfirst.sound hs
    rw [← hmove.active_eq] at hlater hs'
    obtain ⟨hmore, hlast⟩ :=
      ih (fun x hx => hw x (List.mem_append_right _ hx)) hs' hlater hplain.2
    rw [List.flatMap_append, List.flatMap_append, Item.shown_append, ← hmove.active_eq]
    exact ⟨hshows.append hmore, hlast⟩

/-! ## §5. Texts. -/

/-- Compiled text and any layout of it show what the items of the text show. -/
theorem layout_shows {rs : List Run} (hc : Item.Coherent [] (rs.flatMap Run.items))
    (hplain : Item.char Sgr.escape ∉ rs.flatMap Run.items) (m : Measure) :
    Text.Shows (layout m rs) Pen.blank (Item.shown [] (rs.flatMap Run.items)) Pen.blank := by
  obtain ⟨ps, s, hplaced, hlays⟩ := placements_lays m rs
  have hitems := materialOf_items m.threshold rs
  have hsound : ∀ e ∈ ([] : List Entry), e.Sound := fun e he => nomatch he
  obtain ⟨hshows, hs⟩ := hlays.shows (materialOf_proper m.threshold rs) hsound (by rwa [hitems])
    (by rwa [hitems])
  obtain ⟨f, hf, hpen⟩ := ending_turns hs
  have hend := Text.Shows.turns hf (Pen.ofEntries s.active)
  rw [hpen] at hend
  rw [hitems] at hshows
  have hall := hshows.append hend
  unfold layout
  rw [hplaced, List.flatMap_append, List.flatMap_singleton]
  rw [List.append_nil] at hall
  exact hall

theorem render_shows {rs : List Run} (hc : Item.Coherent [] (rs.flatMap Run.items))
    (hplain : Item.char Sgr.escape ∉ rs.flatMap Run.items) :
    Text.Shows (rs.flatMap Run.written ++ Text.ending (rs.foldl Run.after [])) Pen.blank
      (Item.shown [] (rs.flatMap Run.items)) Pen.blank := by
  have hs := hc.sound fun e he => nomatch he
  rw [foldl_after_runs] at hs
  obtain ⟨f, hf, hpen⟩ := ending_turns hs
  have hend := Text.Shows.turns hf (Pen.ofEntries (rs.foldl Run.after []))
  rw [hpen] at hend
  have hall := (runs_shows hc hplain).append hend
  rw [List.append_nil] at hall
  exact hall

/-- **Wrapping never changes the style of a visible glyph.**  If no literal text of `t` holds the
escape character, wrapped `t` and compiled `t` show the same characters with the same pens, apart
from blanks. -/
theorem wrap_keeps_styles {theme : Theme} {t wrapped : Text} {ts : List Token}
    (hts : t.tokens = .ok ts) (hplain : ∀ u, Token.literal u ∈ ts → Sgr.escape ∉ u) {width : Int}
    {threshold? : Option Int} (h : Text.wrap theme t width threshold? = .ok wrapped) :
    ∃ rendered shown, Text.render theme t = .ok rendered
      ∧ wrapped.displayedInk = .ok shown ∧ rendered.displayedInk = .ok shown := by
  obtain ⟨rs, hruns, hcompiled, rfl⟩ := wrap_eq_ok hts h
  have hc := ofTokens_coherent hcompiled empty_sound (tokens_codeFormed hts)
  have hp := ofTokens_plain hcompiled hplain
  refine ⟨rs.flatMap Run.written ++ Text.ending (rs.foldl Run.after []), _, ?_,
    (layout_shows hc hp _).displayedInk, (render_shows hc hp).displayedInk⟩
  exact bind_eq_ok.mpr ⟨rs, hruns, rfl⟩

/-- A dense word is broken under three open styles, of which the first ends inside the word. -/
theorem wrap_keeps_styles_dense :
    Text.wrap Theme.standard "{bold}ab {red}\x1b[4mcd{/bold}efg h".toList 4 none
        = .ok ("\x1b[1mab \x1b[31m\x1b[4mc\x1b[22m\x1b[39m\x1b[24m\x1b[0m\n".toList
          ++ "\x1b[1m\x1b[31m\x1b[4md\x1b[22mefg\x1b[39m\x1b[24m\x1b[0m\n".toList
          ++ "\x1b[31m\x1b[4mh\x1b[39m\x1b[24m\x1b[0m".toList)
      ∧ ∃ rendered shown,
        Text.render Theme.standard "{bold}ab {red}\x1b[4mcd{/bold}efg h".toList = .ok rendered
          ∧ Text.displayedInk ("\x1b[1mab \x1b[31m\x1b[4mc\x1b[22m\x1b[39m\x1b[24m\x1b[0m\n".toList
            ++ "\x1b[1m\x1b[31m\x1b[4md\x1b[22mefg\x1b[39m\x1b[24m\x1b[0m\n".toList
            ++ "\x1b[31m\x1b[4mh\x1b[39m\x1b[24m\x1b[0m".toList) = .ok shown
          ∧ rendered.displayedInk = .ok shown := by
  let ts : List Token :=
    [.tagOpen "{bold}".toList ["bold".toList], .literal "ab ".toList,
     .tagOpen "{red}".toList ["red".toList], .codeOpen "\x1b[4m".toList "\x1b[24m".toList,
     .literal "cd".toList, .tagClose "{/bold}".toList ["bold".toList], .literal "efg h".toList]
  have hts : Text.tokens "{bold}ab {red}\x1b[4mcd{/bold}efg h".toList = .ok ts := by
    decide +kernel
  have hliteral : ∀ tok ∈ ts, Sgr.escape ∉ tok.plain := by decide
  have hplain : ∀ u, Token.literal u ∈ ts → Sgr.escape ∉ u := fun u hu => hliteral _ hu
  have hwrap : Text.wrap Theme.standard "{bold}ab {red}\x1b[4mcd{/bold}efg h".toList 4 none
      = .ok ("\x1b[1mab \x1b[31m\x1b[4mc\x1b[22m\x1b[39m\x1b[24m\x1b[0m\n".toList
        ++ "\x1b[1m\x1b[31m\x1b[4md\x1b[22mefg\x1b[39m\x1b[24m\x1b[0m\n".toList
        ++ "\x1b[31m\x1b[4mh\x1b[39m\x1b[24m\x1b[0m".toList) := by
    decide +kernel
  exact ⟨hwrap, wrap_keeps_styles hts hplain hwrap⟩

end TermMarkup
