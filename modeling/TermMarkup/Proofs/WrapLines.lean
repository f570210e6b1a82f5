/-
  TermMarkup.Proofs.WrapLines
  ───────────────────────────
  THE LINES OF WRAPPED TEXT.  A layout writes the text of its rows with codes
  put in, so what is known of rows can be read off the written lines: without
  codes, line by line, they are the atoms of the text in their order, and what
  is visible of a line is no wider than its row.

    • `layout_coded` — what a layout writes is its text with codes put in,
    • `wrap_rows` — the lines of wrapped text are those of good rows,
    • `wrap_keeps_atoms` — no atom is lost, doubled, moved or parted.
-/
import TermMarkup.Measure.Visible
import TermMarkup.Proofs.Compiled
import TermMarkup.Proofs.Rows

namespace TermMarkup

/-! ## §1. Codes in layouts. -/

theorem openings_coded {active : List Entry} (hs : ∀ e ∈ active, e.Sound) :
    Text.Coded [] (openings active) :=
  (turns_openings hs).coded

theorem ending_coded {active : List Entry} (hs : ∀ e ∈ active, e.Sound) :
    Text.Coded [] (closings active ++ Sgr.reset) :=
  (turns_closings hs).coded.append Text.Turns.reset.coded

/-- What ends a line is a newline with codes around it. -/
theorem lineEnd_coded {active : List Entry} (hs : ∀ e ∈ active, e.Sound) {codes : Text}
    (hcodes : Text.Coded [] codes) : Text.Coded ['\n'] (codes ++ '\n' :: openings active) :=
  hcodes.append (.char '\n' (openings_coded hs))

theorem textEnding_coded {active : List Entry} (hs : ∀ e ∈ active, e.Sound) :
    Text.Coded [] (Text.ending active) := by
  unfold Text.ending
  split
  · exact .nil
  · exact ending_coded hs

/-- Runs are written as their literal text with codes put in. -/
theorem runs_coded {rs : List Run} {active : List Entry}
    (h : Item.Coherent active (rs.flatMap Run.items)) :
    Text.Coded (rs.flatMap Run.literal) (rs.flatMap Run.written) := by
  induction rs generalizing active with
  | nil => exact .nil
  | cons r rs ih =>
    rw [List.flatMap_cons] at h
    obtain ⟨hfirst, hrest⟩ := Item.coherent_append.mp h
    rw [List.flatMap_cons, List.flatMap_cons]
    refine Text.Coded.append ?_ (ih hrest)
    cases r with
    | text t => exact .refl t
    | style codes next =>
      obtain ⟨-, ⟨f, hf, -⟩, -⟩ := hfirst
      exact hf.coded

variable {m : Measure} {s s' : Spot} {w ws : List Material} {p ps : List Placed}

/-- **A move writes its text with codes put in.** -/
theorem Move.coded (h : Move m s w p s') (hs : ∀ e ∈ s.active, e.Sound)
    (hc : Item.Coherent s.active (w.flatMap Material.items)) :
    Text.Coded (p.flatMap Placed.literal) (p.flatMap Placed.written) := by
  cases h with
  | style codes active =>
    have hc : Item.Coherent s.active ([Run.style codes active].flatMap Run.items) := hc
    exact runs_coded hc
  | @keep t kept hkept hfits => exact .refl _
  | drop t => exact .nil
  | @solid parts hfits =>
    rw [List.flatMap_singleton] at hc
    rw [flatMap_literal_run, flatMap_written_run]
    exact runs_coded hc
  | newline =>
    rw [List.flatMap_singleton, List.flatMap_singleton]
    exact lineEnd_coded hs (textEnding_coded hs)
  | wrap hcolumn =>
    rw [List.flatMap_singleton, List.flatMap_singleton]
    exact lineEnd_coded hs (ending_coded hs)

/-- **A run of moves writes its text with codes put in.** -/
theorem Lays.coded (h : Lays m s ws ps s') (hs : ∀ e ∈ s.active, e.Sound)
    (hc : Item.Coherent s.active (ws.flatMap Material.items)) :
    Text.Coded (ps.flatMap Placed.literal) (ps.flatMap Placed.written)
      ∧ ∀ e ∈ s'.active, e.Sound := by
  induction h with
  | stay s => exact ⟨.nil, hs⟩
  | @move s s' s'' w ws p ps hmove _ ih =>
    rw [List.flatMap_append] at hc
    obtain ⟨hfirst, hlater⟩ := Item.coherent_append.mp hc
    have hs' := hfirst.sound hs
    rw [← hmove.active_eq] at hlater hs'
    obtain ⟨hmore, hlast⟩ := ih hs' hlater
    rw [List.flatMap_append, List.flatMap_append]
    exact ⟨(hmove.coded hs hfirst).append hmore, hlast⟩

/-- **What a layout writes is its text with codes put in.** -/
theorem layout_coded {rs : List Run} (hc : Item.Coherent [] (rs.flatMap Run.items)) (m : Measure) :
    Text.Coded ((placements m rs).flatMap Placed.literal) (layout m rs) := by
  obtain ⟨ps, s, hplaced, hlays⟩ := placements_lays m rs
  have hsound : ∀ e ∈ ([] : List Entry), e.Sound := fun e he => nomatch he
  obtain ⟨hcoded, hs⟩ := hlays.coded hsound (by rwa [materialOf_items])
  unfold layout
  rw [hplaced, List.flatMap_append, List.flatMap_append, List.flatMap_singleton,
    List.flatMap_singleton]
  exact hcoded.append (textEnding_coded hs)

/-! ## §2. Lines and rows. -/

/-- The characters of an atom are items of its material. -/
theorem mem_items_of_mem_atom {x : Material} {atom : Text} (hatom : atom ∈ x.atoms) {c : Char}
    (hc : c ∈ atom) : Item.char c ∈ x.items := by
  cases x with
  | solid parts =>
    obtain rfl := List.mem_singleton.mp hatom
    obtain ⟨r, hr, hc⟩ := List.mem_flatMap.mp hc
    refine List.mem_flatMap.mpr ⟨r, hr, ?_⟩
    cases r with
    | text t => exact List.mem_map_of_mem hc
    | style codes active => exact nomatch hc
  | _ => exact nomatch hatom

/-- Ink that is put down is ink of the runs. -/
theorem mem_items_of_placed {m : Measure} {rs : List Run} {c : Char}
    (hc : c ∈ (placements m rs).flatMap Placed.literal) (hink : isBlank c = false) :
    Item.char c ∈ rs.flatMap Run.items := by
  obtain ⟨rows, hlines, hatoms, hgood⟩ := placements_rows m rs
  -- a character that is no line end and no blank is in an atom
  obtain ⟨line, hline, hmem⟩ := Text.exists_mem_fieldsBy (p := (· == '\n')) hc
    (by simpa using ne_newline_of_ink hink)
  have hline : line ∈ rows.map Row.text := hlines ▸ hline
  obtain ⟨row, hrow, rfl⟩ := List.mem_map.mp hline
  have hink : c ∈ row.text.ink := List.mem_filter.mpr ⟨hmem, by simp [hink]⟩
  rw [(hgood row hrow).ink] at hink
  obtain ⟨atom, hatom, hmem⟩ := List.mem_flatten.mp hink
  have hatom : atom ∈ rows.flatMap Row.atoms := List.mem_flatMap.mpr ⟨row, hrow, hatom⟩
  rw [hatoms] at hatom
  obtain ⟨x, hx, hatom⟩ := List.mem_flatMap.mp hatom
  rw [← materialOf_items m.threshold]
  exact List.mem_flatMap.mpr ⟨x, hx, mem_items_of_mem_atom hatom hmem⟩

/-- **Wrapped text is the text of good rows with codes put in.**  The rows hold the atoms of the
text, and apart from blanks only characters of its literal tokens. -/
theorem wrap_rows {theme : Theme} {t wrapped : Text} {ts : List Token} (hts : t.tokens = .ok ts)
    {width : Int} {threshold? : Option Int} (h : Text.wrap theme t width threshold? = .ok wrapped) :
    ∃ (u : Text) (rows : List Row), u.Coded wrapped ∧ Text.lines u = rows.map Row.text
      ∧ rows.flatMap Row.atoms = Token.atoms (threshold?.getD width) ts
      ∧ (∀ row ∈ rows, row.Good width)
      ∧ ∀ c ∈ u, isBlank c = false → ∃ v, Token.literal v ∈ ts ∧ c ∈ v := by
  obtain ⟨rs, -, hcompiled, rfl⟩ := wrap_eq_ok hts h
  obtain ⟨rows, hlines, hatoms, hgood⟩ := placements_rows ⟨width, threshold?.getD width⟩ rs
  have hc := ofTokens_coherent hcompiled empty_sound (tokens_codeFormed hts)
  refine ⟨_, rows, layout_coded hc _, hlines, ?_, hgood, ?_⟩
  · rw [hatoms, materialOf_atoms hcompiled]
  · exact fun c hmem hink => exists_literal_of_item hcompiled (mem_items_of_placed hmem hink)

/-! ## §3. Atoms. -/

/-- The ink of rows is that of their atoms. -/
theorem rows_ink {width : Int} {rows : List Row} (h : ∀ row ∈ rows, row.Good width) :
    (rows.map Row.text).map Text.ink = (rows.map Row.atoms).map List.flatten := by
  rw [List.map_map, List.map_map]
  exact List.map_congr_left fun row hrow => (h row hrow).ink

/-- **No atom is lost, doubled, moved or parted.**  If no literal text of `t` holds the escape
character, the lines of wrapped `t`, without codes and blanks, are consecutive blocks of the atoms
of `t`; it does not matter whether codes are removed from each line or from the whole. -/
theorem wrap_keeps_atoms {theme : Theme} {t wrapped : Text} {ts : List Token}
    (hts : t.tokens = .ok ts) (hplain : ∀ v, Token.literal v ∈ ts → Sgr.escape ∉ v) {width : Int}
    {threshold? : Option Int} (h : Text.wrap theme t width threshold? = .ok wrapped) :
    ∃ blocks : List (List Text), blocks.flatten = Token.atoms (threshold?.getD width) ts
      ∧ (Text.lines wrapped).map (fun line => (Text.removeCodes line).ink)
          = blocks.map List.flatten
      ∧ (Text.lines (Text.removeCodes wrapped)).map Text.ink = blocks.map List.flatten := by
  obtain ⟨u, rows, hcoded, hlines, hatoms, hgood, hliteral⟩ := wrap_rows hts h
  have hu : Sgr.escape ∉ u := by
    intro hmem
    obtain ⟨v, hv, hescape⟩ := hliteral _ hmem (by decide)
    exact hplain v hv hescape
  refine ⟨rows.map Row.atoms, hatoms, ?_, ?_⟩
  · have hremoved := Text.Coded.removeCodes_lines hcoded.lines fun line hline hmem =>
      hu (Text.mem_fieldsBy hline _ hmem).1
    rw [← rows_ink hgood, ← hlines, ← hremoved, List.map_map]
    rfl
  · rw [hcoded.removeCodes_eq hu, hlines, rows_ink hgood]

/-- A word of two runs is kept whole, wider than its line; a wider one is parted into clusters. -/
theorem wrap_keeps_atoms_parted :
    Text.wrap Theme.standard "ab{bold}cd{/bold}  efghij k".toList 3 (some 4)
        = .ok "ab\x1b[1mcd\x1b[22m\x1b[0m\nefg\x1b[0m\nhij\x1b[0m\nk".toList
      ∧ ∃ blocks : List (List Text), blocks.flatten
          = [['a', 'b', 'c', 'd'], ['e'], ['f'], ['g'], ['h'], ['i'], ['j'], ['k']]
        ∧ (Text.lines "ab\x1b[1mcd\x1b[22m\x1b[0m\nefg\x1b[0m\nhij\x1b[0m\nk".toList).map
            (fun line => (Text.removeCodes line).ink) = blocks.map List.flatten
        ∧ (Text.lines (Text.removeCodes
            "ab\x1b[1mcd\x1b[22m\x1b[0m\nefg\x1b[0m\nhij\x1b[0m\nk".toList)).map Text.ink
          = blocks.map List.flatten := by
  let ts : List Token :=
    [.literal "ab".toList, .tagOpen "{bold}".toList ["bold".toList], .literal "cd".toList,
     .tagClose "{/bold}".toList ["bold".toList], .literal "  efghij k".toList]
  have hts : Text.tokens "ab{bold}cd{/bold}  efghij k".toList = .ok ts := by decide +kernel
  have hliteral : ∀ tok ∈ ts, Sgr.escape ∉ tok.plain := by decide
  have hplain : ∀ v, Token.literal v ∈ ts → Sgr.escape ∉ v := fun v hv => hliteral _ hv
  have hatoms : Token.atoms 4 ts
      = [['a', 'b', 'c', 'd'], ['e'], ['f'], ['g'], ['h'], ['i'], ['j'], ['k']] := by
    decide +kernel
  have hwrap : Text.wrap Theme.standard "ab{bold}cd{/bold}  efghij k".toList 3 (some 4)
      = .ok "ab\x1b[1mcd\x1b[22m\x1b[0m\nefg\x1b[0m\nhij\x1b[0m\nk".toList := by
    decide +kernel
  exact ⟨hwrap, hatoms ▸ wrap_keeps_atoms hts hplain hwrap⟩

/-! ## §4. Widths. -/

/-- What stands in the second list belongs to something in the first. -/
theorem exists_of_forall₂ {α β : Type} {R : α → β → Prop} {as : List α} {bs : List β}
    (h : List.Forall₂ R as bs) {b : β} (hb : b ∈ bs) : ∃ a ∈ as, R a b := by
  induction h with
  | nil => exact nomatch hb
  | @cons a b' as bs hab _ ih =>
    rcases List.mem_cons.mp hb with rfl | hb
    · exact ⟨a, List.mem_cons_self, hab⟩
    · obtain ⟨a', ha', hR⟩ := ih hb
      exact ⟨a', List.mem_cons_of_mem _ ha', hR⟩

/-- What is visible of a text with codes put in is no wider than the text. -/
theorem visibleWidth_le {u t : Text} (h : Text.Coded u t) :
    Text.visibleWidth t ≤ Text.width u := by
  rw [Text.visibleWidth_eq]
  exact width_le_of_sublist h.visible_sublist

/-- If no word is wider than the threshold, or else no cluster is, no atom is. -/
theorem width_atom_le_threshold {threshold : Int} {ts : List Token}
    (h : ∀ word ∈ Token.words ts, ∀ run ∈ word, ∀ cluster ∈ Text.clusters run,
      (Text.width cluster : Int) ≤ threshold) :
    ∀ atom ∈ Token.atoms threshold ts, (Text.width atom : Int) ≤ threshold := by
  intro atom hatom
  obtain ⟨word, hword, hatom⟩ := List.mem_flatMap.mp hatom
  unfold atomsOf at hatom
  split at hatom
  · obtain ⟨run, hrun, hcluster⟩ := List.mem_flatMap.mp hatom
    exact h word hword run hrun atom hcluster
  · next hnarrow =>
    obtain rfl := List.mem_singleton.mp hatom
    exact Int.not_lt.mp hnarrow

/-- A row is as narrow as it should be if its atoms are. -/
theorem row_narrow {width : Int} {row : Row} (hrow : row.Good width)
    (hatoms : ∀ atom ∈ row.atoms, (Text.width atom : Int) ≤ width) :
    (Text.width row.text : Int) ≤ max width 0 := by
  rcases hrow.bounded with hnarrow | ⟨atom, hone, hwidth⟩
  · exact hnarrow
  · have hmem : atom ∈ row.atoms.filter fun a => 0 < Text.width a :=
      hone ▸ List.mem_cons_self
    have hle := hatoms atom (List.mem_of_mem_filter hmem)
    omega

end TermMarkup
