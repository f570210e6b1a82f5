/-
  TermMarkup.Proofs.LineEnds
  ──────────────────────────
  EVERY LINE STANDS ALONE.  No code runs across a newline, so a terminal takes
  from joined lines what it takes from each of them; and where a layout ends a
  line, it has switched off all that was on.  A terminal that has just been
  switched on shows each line of wrapped text as it stands among the others.

    • `signals_newline` — the signals of two texts with a newline between them,
    • `Text.Settles` — a text at whose line ends everything is off,
    • `Move.settles`, `Lays.settles` — one move, and a run of moves,
    • `wrap_settles` — wrapped text,
    • `wrap_lines_stand_alone` — and so each of its lines stands alone.
-/
import TermMarkup.Proofs.Newlines
import TermMarkup.Proofs.WrapPen

namespace TermMarkup

/-! ## §1. Signals of joined lines. -/

theorem signalsOf_append (ps qs : List Piece) :
    signalsOf (ps ++ qs) = return (← signalsOf ps) ++ (← signalsOf qs) := by
  induction ps with
  | nil =>
    show signalsOf qs = _
    cases signalsOf qs <;> rfl
  | cons p ps ih =>
    show (do return (← p.signals) ++ (← signalsOf (ps ++ qs))) = _
    rw [ih]
    show _ = (do
      let ss ← (do return (← p.signals) ++ (← signalsOf ps) : Except Fault (List Signal))
      return ss ++ (← signalsOf qs) : Except Fault (List Signal))
    cases p.signals with
    | error fault => rfl
    | ok first =>
      cases signalsOf ps with
      | error fault => rfl
      | ok second =>
        cases signalsOf qs with
        | error fault => rfl
        | ok third => exact congrArg Except.ok (List.append_assoc first second third).symm

/-- **The signals of two texts with a newline between them** are those of the two, and the
newline's. -/
theorem signals_newline {a b : Text} {ss : List Signal} (h : (a ++ '\n' :: b).signals = .ok ss) :
    ∃ as bs, a.signals = .ok as ∧ b.signals = .ok bs ∧ ss = as ++ .glyph '\n' :: bs := by
  unfold Text.signals pieces at h
  rw [scan_newline code?_finds code?_staysOnLine, signalsOf_append] at h
  obtain ⟨as, has, h⟩ := bind_eq_ok.mp h
  obtain ⟨more, hmore, h⟩ := bind_eq_ok.mp h
  obtain rfl := Except.ok.inj h
  obtain ⟨newline, hnewline, hmore⟩ := bind_eq_ok.mp hmore
  obtain rfl := Except.ok.inj hnewline
  obtain ⟨bs, hbs, hmore⟩ := bind_eq_ok.mp hmore
  obtain rfl := Except.ok.inj hmore
  exact ⟨as, bs, has, hbs, rfl⟩

/-! ## §2. Texts at whose line ends everything is off. -/

/-- Every newline among the signals is shown with everything off. -/
def Pen.EndsLines (pen : Pen) (ss : List Signal) : Prop :=
  ∀ shown ∈ pen.display ss, shown.1 = '\n' → shown.2 = Pen.blank

theorem Pen.endsLines_append {pen : Pen} {as bs : List Signal} :
    pen.EndsLines (as ++ bs) ↔ pen.EndsLines as ∧ (pen.follow as).EndsLines bs := by
  unfold Pen.EndsLines
  rw [Pen.display_append]
  exact List.forall_mem_append

/-- Read with `pen`, whatever follows, the text has everything off at its line ends and leaves
`pen'`. -/
def Text.Settles (t : Text) (pen pen' : Pen) : Prop :=
  ∃ ss : List Signal, t.Emits ss ∧ pen.EndsLines ss ∧ pen.follow ss = pen'

namespace Text.Settles

theorem nil (pen : Pen) : Settles [] pen pen := ⟨[], Emits.nil, fun _ h => (nomatch h), rfl⟩

theorem append {a b : Text} {pen pen' pen'' : Pen} (ha : Settles a pen pen')
    (hb : Settles b pen' pen'') : Settles (a ++ b) pen pen'' := by
  obtain ⟨as, has, hends, hpen⟩ := ha
  obtain ⟨bs, hbs, hends', hpen'⟩ := hb
  refine ⟨as ++ bs, has.append hbs, ?_, ?_⟩
  · rw [Pen.endsLines_append, hpen]
    exact ⟨hends, hends'⟩
  · rw [Pen.follow_append, hpen, hpen']

/-- Text of one line settles. -/
theorem plain {u : Text} (hu : Sgr.escape ∉ u) (hline : '\n' ∉ u) (pen : Pen) :
    Settles u pen pen := by
  refine ⟨u.map .glyph, Emits.plain hu, ?_, Pen.follow_glyphs pen u⟩
  unfold Pen.EndsLines
  rw [Pen.display_glyphs]
  intro shown hshown hnewline
  obtain ⟨c, hc, rfl⟩ := List.mem_map.mp hshown
  exact absurd (show c = '\n' from hnewline) fun heq => hline (heq ▸ hc)

theorem turns {t : Text} {f : Pen → Pen} (h : Turns t f) (pen : Pen) : Settles t pen (f pen) := by
  obtain ⟨es, hes, hf⟩ := h.effects
  refine ⟨es.map .effect, hes, ?_, ?_⟩
  · unfold Pen.EndsLines
    rw [Pen.display_effects]
    exact fun _ h => nomatch h
  · rw [Pen.follow_effects, hf]

/-- A newline settles where everything is off. -/
theorem newline : Settles ['\n'] Pen.blank Pen.blank := by
  refine ⟨[.glyph '\n'], Emits.plain (by decide), ?_, rfl⟩
  intro shown hshown _
  obtain rfl := List.mem_singleton.mp hshown
  rfl

end Text.Settles

/-! ## §3. Layouts. -/

/-- Runs of one line settle. -/
theorem runs_settle {rs : List Run} {active : List Entry}
    (h : Item.Coherent active (rs.flatMap Run.items))
    (hplain : Item.char Sgr.escape ∉ rs.flatMap Run.items) (hline : ∀ r ∈ rs, '\n' ∉ r.literal) :
    Text.Settles (rs.flatMap Run.written) (Pen.ofEntries active)
      (Pen.ofEntries (rs.foldl Run.after active)) := by
  induction rs generalizing active with
  | nil => exact .nil _
  | cons r rs ih =>
    rw [List.flatMap_cons] at h hplain
    obtain ⟨hfirst, hrest⟩ := Item.coherent_append.mp h
    rw [List.mem_append, not_or] at hplain
    rw [foldl_after_run] at hrest
    have hone : Text.Settles r.written (Pen.ofEntries active) (Pen.ofEntries (r.after active)) := by
      cases r with
      | text t =>
        have ht : Sgr.escape ∉ t := fun hmem => hplain.1 (List.mem_map_of_mem hmem)
        exact .plain ht (hline _ List.mem_cons_self) _
      | style codes next =>
        obtain ⟨-, ⟨f, hf, hpen⟩, -⟩ := hfirst
        show Text.Settles codes _ (Pen.ofEntries next)
        rw [← hpen]
        exact .turns hf _
    rw [List.flatMap_cons]
    exact hone.append (ih hrest hplain.2 fun r' hr' => hline r' (List.mem_cons_of_mem _ hr'))

/-- Codes that turn the pen blank, a newline, and the open styles again. -/
theorem lineEnd_settles {active : List Entry} (hs : ∀ e ∈ active, e.Sound) {codes : Text}
    {f : Pen → Pen} (hf : codes.Turns f) (hpen : f (Pen.ofEntries active) = Pen.blank) :
    Text.Settles (codes ++ '\n' :: openings active) (Pen.ofEntries active)
      (Pen.ofEntries active) := by
  have hcodes := Text.Settles.turns hf (Pen.ofEntries active)
  rw [hpen] at hcodes
  have hopenings := Text.Settles.turns (turns_openings hs) Pen.blank
  exact hcodes.append (Text.Settles.newline.append hopenings)

variable {m : Measure} {s s' : Spot} {w ws : List Material} {p ps : List Placed}

/-- **Where a move ends a line, everything is off.** -/
theorem Move.settles (h : Move m s w p s') (hw : ∀ x ∈ w, x.Proper) (hs : ∀ e ∈ s.active, e.Sound)
    (hc : Item.Coherent s.active (w.flatMap Material.items))
    (hplain : Item.char Sgr.escape ∉ w.flatMap Material.items) :
    Text.Settles (p.flatMap Placed.written) (Pen.ofEntries s.active)
      (Pen.ofEntries s'.active) := by
  cases h with
  | style codes active =>
    have hc : Item.Coherent s.active ([Run.style codes active].flatMap Run.items) := hc
    refine runs_settle hc hplain fun r hr => ?_
    obtain rfl := List.mem_singleton.mp hr
    exact List.not_mem_nil
  | @keep t kept hkept hfits =>
    have ht : (Material.blank t).Proper := hw _ List.mem_cons_self
    have hescape : Sgr.escape ∉ kept := fun hmem =>
      absurd (ht _ (hkept.subset hmem)).1 (by decide)
    have hline : '\n' ∉ kept := fun hmem => (ht _ (hkept.subset hmem)).2 rfl
    rw [List.flatMap_singleton]
    exact .plain hescape hline _
  | drop t => exact .nil _
  | @solid parts hfits =>
    have hparts : (Material.solid parts).Proper := hw _ List.mem_cons_self
    rw [List.flatMap_singleton] at hc hplain
    rw [flatMap_written_run]
    exact runs_settle hc hplain fun r hr hmem => ne_newline_of_ink (hparts r hr _ hmem) rfl
  | newline =>
    -- with no style open the ending writes nothing, and the pen is blank already
    obtain ⟨f, hf, hpen⟩ := ending_turns hs
    rw [List.flatMap_singleton]
    exact lineEnd_settles hs hf hpen
  | wrap hcolumn =>
    rw [List.flatMap_singleton]
    exact lineEnd_settles hs ((turns_closings hs).append .reset) rfl

/-- **Where a run of moves ends a line, everything is off.** -/
theorem Lays.settles (h : Lays m s ws ps s') (hw : ∀ x ∈ ws, x.Proper)
    (hs : ∀ e ∈ s.active, e.Sound) (hc : Item.Coherent s.active (ws.flatMap Material.items))
    (hplain : Item.char Sgr.escape ∉ ws.flatMap Material.items) :
    Text.Settles (ps.flatMap Placed.written) (Pen.ofEntries s.active) (Pen.ofEntries s'.active)
      ∧ ∀ e ∈ s'.active, e.Sound := by
  -- on the run: a move hands on sound styles, whose codes end the next line
  induction h with
  | stay s => exact ⟨.nil _, hs⟩
  | @move s s' s'' w ws p ps hmove hrest ih =>
    rw [List.flatMap_append] at hc hplain
    obtain ⟨hfirst, hlater⟩ := Item.coherent_append.mp hc
    rw [List.mem_append, not_or] at hplain
    have hsettles :=
      hmove.settles (fun x hx => hw x (List.mem_append_left _ hx)) hs hfirst hplain.1
    have hs' := hfirst.sound hs
    rw [← hmove.active_eq] at hlater hs'
    obtain ⟨hmore, hlast⟩ :=
      ih (fun x hx => hw x (List.mem_append_right _ hx)) hs' hlater hplain.2
    rw [List.flatMap_append]
    exact ⟨hsettles.append hmore, hlast⟩

/-- **A layout has everything off at its line ends and at its end.** -/
theorem layout_settles {rs : List Run} (hc : Item.Coherent [] (rs.flatMap Run.items))
    (hplain : Item.char Sgr.escape ∉ rs.flatMap Run.items) (m : Measure) :
    Text.Settles (layout m rs) Pen.blank Pen.blank := by
  obtain ⟨ps, s, hplaced, hlays⟩ := placements_lays m rs
  have hitems := materialOf_items m.threshold rs
  have hsound : ∀ e ∈ ([] : List Entry), e.Sound := fun e he => nomatch he
  obtain ⟨hsettles, hs⟩ := hlays.settles (materialOf_proper m.threshold rs) hsound
    (by rwa [hitems]) (by rwa [hitems])
  obtain ⟨f, hf, hpen⟩ := ending_turns hs
  have hend := Text.Settles.turns hf (Pen.ofEntries s.active)
  rw [hpen] at hend
  unfold layout
  rw [hplaced, List.flatMap_append, List.flatMap_singleton]
  exact hsettles.append hend

/-- **Wrapped text has everything off at its line ends and at its end**, if no literal text holds
the escape character. -/
theorem wrap_settles {theme : Theme} {t wrapped : Text} {ts : List Token} (hts : t.tokens = .ok ts)
    (hplain : ∀ u, Token.literal u ∈ ts → Sgr.escape ∉ u) {width : Int} {threshold? : Option Int}
    (h : Text.wrap theme t width threshold? = .ok wrapped) :
    Text.Settles wrapped Pen.blank Pen.blank := by
  obtain ⟨rs, -, hcompiled, rfl⟩ := wrap_eq_ok hts h
  exact layout_settles (ofTokens_coherent hcompiled empty_sound (tokens_codeFormed hts))
    (ofTokens_plain hcompiled hplain) _

/-! ## §4. Lines. -/

/-- Read with everything off, the text leaves everything off. -/
def Text.Neutral (t : Text) : Prop := Pen.blank.after t = .ok Pen.blank

theorem Text.neutral_of_signals {t : Text} {ss : List Signal} (h : t.signals = .ok ss)
    (hpen : Pen.blank.follow ss = Pen.blank) : t.Neutral := by
  unfold Neutral Pen.after
  rw [h]
  exact congrArg Except.ok hpen

/-- What stands before a line end that has everything off is neutral, and so the rest is read with
everything off. -/
theorem neutral_before {a b : Text} {ss : List Signal} (h : (a ++ '\n' :: b).signals = .ok ss)
    (hends : Pen.blank.EndsLines ss) :
    ∃ as bs, a.signals = .ok as ∧ Pen.blank.follow as = Pen.blank ∧ b.signals = .ok bs
      ∧ Pen.blank.EndsLines bs
      ∧ Pen.blank.display ss = Pen.blank.display as ++ ('\n', Pen.blank) :: Pen.blank.display bs
      ∧ Pen.blank.follow ss = Pen.blank.follow bs := by
  obtain ⟨as, bs, has, hbs, rfl⟩ := signals_newline h
  have hafter := (Pen.endsLines_append.mp hends).2
  have hpen : Pen.blank.follow as = Pen.blank := hafter ('\n', _) List.mem_cons_self rfl
  rw [hpen] at hafter
  refine ⟨as, bs, has, hpen, hbs, fun shown hshown => ?_, ?_, ?_⟩
  · exact hafter shown (List.mem_cons_of_mem _ hshown)
  · rw [Pen.display_append, hpen]
    rfl
  · rw [Pen.follow_append, hpen]
    rfl

/-- Each of the lines is neutral and shows `shown` by itself. -/
def Text.ShowAlone (lines : List Text) (shown : List (List (Char × Pen))) : Prop :=
  List.Forall₂ (fun line cs => Neutral line ∧ line.displayed = .ok cs) lines shown

theorem displayed_of_signals {t : Text} {ss : List Signal} (h : t.signals = .ok ss) :
    t.displayed = .ok (Pen.blank.display ss) := by
  unfold Text.displayed
  rw [h]
  rfl

/-- **Lines that end with everything off show alone what they show in sequence.** -/
theorem lines_show_alone {ls : List Text} (hne : ls ≠ []) {ss : List Signal}
    (h : (Text.unlines ls).signals = .ok ss) (hends : Pen.blank.EndsLines ss)
    (hpen : Pen.blank.follow ss = Pen.blank) :
    ∃ shown, Text.ShowAlone ls shown
      ∧ Pen.blank.display ss = List.intercalate [('\n', Pen.blank)] shown := by
  induction ls generalizing ss with
  | nil => exact absurd rfl hne
  | cons line ls ih =>
    cases ls with
    | nil =>
      rw [Text.unlines_singleton] at h
      refine ⟨[Pen.blank.display ss], .cons ⟨?_, displayed_of_signals h⟩ .nil, ?_⟩
      · exact Text.neutral_of_signals h hpen
      · exact List.intercalate_singleton.symm
    | cons next ls =>
      rw [Text.unlines_cons_cons] at h
      obtain ⟨as, bs, has, hneutral, hbs, hends', hdisplay, hfollow⟩ := neutral_before h hends
      obtain ⟨shown, halone, hrest⟩ := ih (by simp) hbs hends' (hfollow ▸ hpen)
      refine ⟨Pen.blank.display as :: shown, .cons ⟨?_, displayed_of_signals has⟩ halone, ?_⟩
      · exact Text.neutral_of_signals has hneutral
      · rw [hdisplay, hrest]
        cases halone with
        | cons _ _ =>
          rw [List.intercalate_cons_cons, List.append_assoc]
          rfl

/-- **Every line of wrapped text stands alone.**  If no literal text of `t` holds the escape
character, everything is off at each line end of wrapped `t` and at its end; so each line shows by
itself, and leaves everything off, what it shows in sequence. -/
theorem wrap_lines_stand_alone {theme : Theme} {t wrapped : Text} {ts : List Token}
    (hts : t.tokens = .ok ts) (hplain : ∀ u, Token.literal u ∈ ts → Sgr.escape ∉ u) {width : Int}
    {threshold? : Option Int} (h : Text.wrap theme t width threshold? = .ok wrapped) :
    (∀ before after, wrapped = before ++ '\n' :: after → Text.Neutral before)
      ∧ Text.Neutral wrapped
      ∧ ∃ shown, Text.ShowAlone (Text.lines wrapped) shown
        ∧ wrapped.displayed = .ok (List.intercalate [('\n', Pen.blank)] shown) := by
  obtain ⟨ss, hemits, hends, hpen⟩ := wrap_settles hts hplain h
  have hss := hemits.signals
  refine ⟨?_, Text.neutral_of_signals hss hpen, ?_⟩
  · rintro before after rfl
    obtain ⟨as, bs, has, hneutral, -⟩ := neutral_before hss hends
    exact Text.neutral_of_signals has hneutral
  · have hne : Text.lines wrapped ≠ [] := Text.fieldsBy_ne_nil _ _
    have hlines : (Text.unlines (Text.lines wrapped)).signals = .ok ss := by
      rw [Text.unlines_lines]
      exact hss
    obtain ⟨shown, halone, hdisplay⟩ := lines_show_alone hne hlines hends hpen
    exact ⟨shown, halone, hdisplay ▸ displayed_of_signals hss⟩

/-- One line is wrapped, one ends with styles open, one after its styles were closed by a tag and by
a code, and the last at the end of the text. -/
theorem wrap_lines_stand_alone_mixed :
    let lines : List Text :=
      ["\x1b[1mab\x1b[22m\x1b[0m".toList, "\x1b[1m\x1b[4mcd\x1b[22m\x1b[24m\x1b[0m".toList,
       "\x1b[1m\x1b[4me\x1b[22mf\x1b[24m".toList, "g\x1b[31mh\x1b[39m\x1b[0m".toList]
    Text.wrap Theme.standard "{bold}ab \x1b[4mcd\ne{/bold}f\x1b[24m\ng{red}h".toList 3 none
        = .ok (Text.unlines lines)
      ∧ (∀ before after, Text.unlines lines = before ++ '\n' :: after → Text.Neutral before)
      ∧ Text.Neutral (Text.unlines lines)
      ∧ ∃ shown, Text.ShowAlone (Text.lines (Text.unlines lines)) shown
        ∧ (Text.unlines lines).displayed = .ok (List.intercalate [('\n', Pen.blank)] shown) := by
  intro lines
  let ts : List Token :=
    [.tagOpen "{bold}".toList ["bold".toList], .literal "ab ".toList,
     .codeOpen "\x1b[4m".toList "\x1b[24m".toList, .literal "cd\ne".toList,
     .tagClose "{/bold}".toList ["bold".toList], .literal "f".toList,
     .codeClose "\x1b[24m".toList, .literal "\ng".toList,
     .tagOpen "{red}".toList ["red".toList], .literal "h".toList]
  have hts : Text.tokens "{bold}ab \x1b[4mcd\ne{/bold}f\x1b[24m\ng{red}h".toList = .ok ts := by
    decide +kernel
  have hliteral : ∀ tok ∈ ts, Sgr.escape ∉ tok.plain := by decide
  have hplain : ∀ u, Token.literal u ∈ ts → Sgr.escape ∉ u := fun u hu => hliteral _ hu
  have hwrap : Text.wrap Theme.standard "{bold}ab \x1b[4mcd\ne{/bold}f\x1b[24m\ng{red}h".toList 3
      none = .ok (Text.unlines lines) := by
    decide +kernel
  exact ⟨hwrap, wrap_lines_stand_alone hts hplain hwrap⟩

end TermMarkup
