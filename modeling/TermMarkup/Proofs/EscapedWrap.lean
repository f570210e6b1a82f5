/-
  TermMarkup.Proofs.EscapedWrap
  ─────────────────────────────
  ESCAPED TEXT IN LINES.  To the layout a doubled brace is two clusters of one
  column each, so a line end can come between them, but only inside a dense
  word; then each of the two stands alone on its line, and taking pairs together
  no longer makes one of them.  Blanks aside, a layout neither loses nor adds
  anything, so the text can be got back exactly if no pair was parted, that is,
  if every line by itself is the escaped form of some text.

    • `placements_ink` — a layout puts down the ink that it takes in,
    • `Lays.escaped` — what is put down is escaped if all solid pieces are,
    • `wrap_escapeBraces` — when escaped text comes back from wrapping.
-/
import TermMarkup.Proofs.Escaping
import TermMarkup.Proofs.FewestLines
import TermMarkup.Proofs.Newlines
import TermMarkup.Proofs.Separation

namespace TermMarkup

/-! ## §1. What a layout does to text. -/

section

variable {m : Measure} {s s' : Spot} {w ws : List Material} {p ps : List Placed}

/-- **A move puts down the ink that it takes in.** -/
theorem Move.ink (h : Move m s w p s') (hw : ∀ x ∈ w, x.Proper) :
    Text.ink (p.flatMap Placed.literal) = Text.ink (w.flatMap Material.text) := by
  have hblank : ∀ t kept : Text, Material.Proper (.blank t) → kept <+: t →
      Text.ink kept = [] ∧ Text.ink (Material.text (.blank t)) = [] := by
    intro t kept ht hkept
    refine ⟨Text.ink_eq_nil fun c hc => (ht c (hkept.subset hc)).1, Text.ink_eq_nil fun c hc => ?_⟩
    exact ht.blank rfl c hc
  cases h with
  | style codes active => rfl
  | @keep t kept hkept hfits =>
    obtain ⟨hnone, hall⟩ := hblank t kept (hw _ List.mem_cons_self) hkept
    rw [List.flatMap_singleton, List.flatMap_singleton, hall]
    exact hnone
  | drop t =>
    rw [List.flatMap_singleton, (hblank t [] (hw _ List.mem_cons_self) List.nil_prefix).2]
    rfl
  | @solid parts hfits =>
    rw [List.flatMap_singleton, flatMap_literal_run]
    rfl
  | newline => rfl
  | wrap hcolumn => rfl

theorem Lays.ink (h : Lays m s ws ps s') (hw : ∀ x ∈ ws, x.Proper) :
    Text.ink (ps.flatMap Placed.literal) = Text.ink (ws.flatMap Material.text) := by
  induction h with
  | stay s => rfl
  | @move s s' s'' w ws p ps hmove _ ih =>
    have hfirst := fun x hx => hw x (List.mem_append_left ws hx)
    have hrest := fun x hx => hw x (List.mem_append_right w hx)
    rw [List.flatMap_append, List.flatMap_append, Text.ink_append, Text.ink_append,
      hmove.ink hfirst, ih hrest]

/-- **A layout puts down the ink of the runs.** -/
theorem placements_ink (m : Measure) (rs : List Run) :
    Text.ink ((placements m rs).flatMap Placed.literal) = Text.ink (rs.flatMap Run.literal) := by
  obtain ⟨ps, s, hplaced, hlays⟩ := placements_lays m rs
  rw [hplaced, List.flatMap_append, ← materialOf_text m.threshold,
    ← hlays.ink (materialOf_proper m.threshold rs)]
  exact congrArg Text.ink (List.append_nil _)

/-- Blanks are escaped as they stand. -/
theorem Text.Escaped.of_blank {u : Text} (h : ∀ c ∈ u, isBlank c = true) : u.Escaped := by
  refine .of_no_brace (fun hmem => ?_) fun hmem => ?_ <;>
  · exact absurd (h _ hmem) (by decide)

/-- **A move puts down escaped text if what stays on one line is escaped.** -/
theorem Move.escaped (h : Move m s w p s') (hw : ∀ x ∈ w, x.Proper)
    (hatoms : ∀ atom ∈ w.flatMap Material.atoms, atom.Escaped) :
    Text.Escaped (p.flatMap Placed.literal) := by
  cases h with
  | style codes active => exact ⟨[], rfl⟩
  | @keep t kept hkept hfits =>
    rw [List.flatMap_singleton]
    exact .of_blank fun c hc => (hw (.blank t) List.mem_cons_self c (hkept.subset hc)).1
  | drop t => exact ⟨[], rfl⟩
  | @solid parts hfits =>
    rw [flatMap_literal_run]
    exact hatoms _ List.mem_cons_self
  | newline => exact ⟨['\n'], rfl⟩
  | wrap hcolumn => exact ⟨['\n'], rfl⟩

theorem Lays.escaped (h : Lays m s ws ps s') (hw : ∀ x ∈ ws, x.Proper)
    (hatoms : ∀ atom ∈ ws.flatMap Material.atoms, atom.Escaped) :
    Text.Escaped (ps.flatMap Placed.literal) := by
  induction h with
  | stay s => exact ⟨[], rfl⟩
  | @move s s' s'' w ws p ps hmove _ ih =>
    rw [List.flatMap_append] at hatoms ⊢
    obtain ⟨hfirst, hrest⟩ := List.forall_mem_append.mp hatoms
    obtain ⟨hwfirst, hwrest⟩ := List.forall_mem_append.mp hw
    exact (hmove.escaped hwfirst hfirst).append (ih hwrest hrest)

/-- **A layout puts down escaped text if no atom parts a pair of braces.** -/
theorem placements_escaped {m : Measure} {rs : List Run}
    (h : ∀ atom ∈ (materialOf m.threshold rs).flatMap Material.atoms, atom.Escaped) :
    Text.Escaped ((placements m rs).flatMap Placed.literal) := by
  obtain ⟨ps, s, hplaced, hlays⟩ := placements_lays m rs
  have hescaped := hlays.escaped (materialOf_proper m.threshold rs) h
  rw [hplaced, List.flatMap_append]
  exact hescaped.append ⟨[], rfl⟩

end

/-! ## §2. Atoms of escaped text. -/

section

variable {theme : Theme} {s : Stack} {ts : List Token} {rs : List Run}

/-- The units of runs hold their literal text. -/
theorem ofRuns_literal (rs : List Run) :
    ((LayoutUnit.ofRuns [] rs).flatMap LayoutUnit.runs).flatMap Run.literal
      = rs.flatMap Run.literal := by
  have hitems := ofRuns_items [] rs
  unfold LayoutUnit.items at hitems
  rw [← flatMap_literal_items, hitems, List.nil_append, flatMap_literal_items]

/-- **The words of tokens are the words of their literal text**, each parted where literals end. -/
theorem words_flatten (h : Run.ofTokens theme s ts = .ok rs) :
    (Token.words ts).map List.flatten = Text.words (ts.flatMap Token.plain) := by
  have hunits : (LayoutUnit.ofRuns [] rs).flatMap LayoutUnit.words = Token.words ts := by
    rw [ofRuns_words nil_isInk, ofTokens_symbols h]
    rfl
  rw [← hunits, ← words_units (ofRuns_spread nil_isInk rs), ofRuns_literal, ofTokens_literal h]

/-- **No atom parts a pair of braces** where words with braces are not dense. -/
theorem atom_escaped {t : Text} (h : Run.ofTokens theme s ts = .ok rs)
    (hplain : ts.flatMap Token.plain = Text.escapeBraces t) {threshold : Int}
    (hnarrow : ∀ w ∈ Text.words t, '{' ∈ w ∨ '}' ∈ w →
      (Text.width (Text.escapeBraces w) : Int) ≤ threshold) :
    ∀ atom ∈ Token.atoms threshold ts, atom.Escaped := by
  intro atom hatom
  obtain ⟨word, hword, hatom⟩ := List.mem_flatMap.mp hatom
  have hwords := words_flatten h
  rw [hplain, Text.words_escapeBraces] at hwords
  obtain ⟨w, hw, hflatten⟩ := List.mem_map.mp (hwords ▸ List.mem_map_of_mem hword)
  unfold atomsOf at hatom
  rw [← hflatten] at hatom
  split at hatom
  · next hdense =>
    -- a dense word has no braces, so none of its clusters has
    have hnone : ¬('{' ∈ w ∨ '}' ∈ w) := fun hbrace =>
      absurd (hnarrow w hw hbrace) (Int.not_le.mpr hdense)
    obtain ⟨hopen, hclose⟩ := not_or.mp hnone
    obtain ⟨run, hrun, hatom⟩ := List.mem_flatMap.mp hatom
    have hin : ∀ c ∈ atom, c ∈ w := fun c hc =>
      Text.mem_of_mem_escapeBraces
        (hflatten ▸ List.mem_flatten.mpr ⟨run, hrun, mem_of_mem_clusters hatom c hc⟩)
    exact .of_no_brace (fun hc => hopen (hin _ hc)) fun hc => hclose (hin _ hc)
  · obtain rfl := List.mem_singleton.mp hatom
    exact ⟨w, rfl⟩

end

/-! ## §3. Wrapped text. -/

/-- Plain characters make one literal, or none if there are none. -/
theorem ofPieces_spelled (u : Text) :
    ∃ ts, Token.ofPieces (u.map .plain) = .ok ts ∧ Token.Spell ts u := by
  induction u with
  | nil => exact ⟨[], rfl, .none⟩
  | cons c u ih =>
    obtain ⟨ts, hts, hspell⟩ := ih
    refine ⟨Token.consPlain c ts, bind_eq_ok.mpr ⟨ts, hts, rfl⟩, ?_⟩
    cases hspell <;> exact .literal _

/-- Literal text compiles. -/
theorem ofTokens_spell (theme : Theme) {ts : List Token} {u : Text} (h : Token.Spell ts u) :
    ts.flatMap Token.plain = u ∧ ∃ rs, Run.ofTokens theme Stack.empty ts = .ok rs := by
  cases h with
  | none => exact ⟨rfl, [], rfl⟩
  | literal u => exact ⟨List.append_nil u, [.text u], rfl⟩

/-- **A layout of compiled tokens, without its codes, is what it puts down.** -/
theorem removeCodes_layout {theme : Theme} {t : Text} {ts : List Token} {rs : List Run}
    (hts : t.tokens = .ok ts) (hplain : Sgr.escape ∉ ts.flatMap Token.plain)
    (h : Run.ofTokens theme Stack.empty ts = .ok rs) (m : Measure) :
    Text.removeCodes (layout m rs) = (placements m rs).flatMap Placed.literal := by
  have hcoded := layout_coded (ofTokens_coherent h empty_sound (tokens_codeFormed hts)) m
  have hliteral : ∀ u, Token.literal u ∈ ts → Sgr.escape ∉ u := fun u hu hmem =>
    hplain (List.mem_flatMap.mpr ⟨_, hu, hmem⟩)
  refine hcoded.removeCodes_eq fun hmem => ?_
  exact ofTokens_plain h hliteral (mem_items_of_placed hmem (by decide))

/-- **Escaped text is wrapped, and comes back exactly if no pair of braces is parted.**  Blanks
aside, taking pairs together in wrapped `t` without its codes gives `t` if and only if every line is
the escaped form of some text; and so it is where no word with braces is dense. -/
theorem wrap_escapeBraces (theme : Theme) {t : Text} (ht : Sgr.escape ∉ t) (width : Int)
    (threshold? : Option Int) :
    ∃ wrapped, Text.wrap theme (Text.escapeBraces t) width threshold? = .ok wrapped
      ∧ (Text.ink (Text.unescapeBraces (Text.removeCodes wrapped)) = Text.ink t
          ↔ ∀ line ∈ Text.lines (Text.removeCodes wrapped), line.Escaped)
      ∧ ((∀ w ∈ Text.words t, '{' ∈ w ∨ '}' ∈ w →
            (Text.width (Text.escapeBraces w) : Int) ≤ threshold?.getD width) →
          Text.ink (Text.unescapeBraces (Text.removeCodes wrapped)) = Text.ink t) := by
  obtain ⟨ts, hpieces, hspell⟩ := ofPieces_spelled (Text.escapeBraces t)
  obtain ⟨hplain, rs, hcompiled⟩ := ofTokens_spell theme hspell
  have hts : (Text.escapeBraces t).tokens = .ok ts := by
    refine bind_eq_ok.mpr ⟨(), checkTags_escapeBraces t, ?_⟩
    rw [pieces_escapeBraces ht]
    exact hpieces
  have hescape : Sgr.escape ∉ ts.flatMap Token.plain := by
    rw [hplain]
    exact fun hmem => ht (Text.mem_of_mem_escapeBraces hmem)
  set m : Measure := ⟨width, threshold?.getD width⟩
  have hwrapped : Text.wrap theme (Text.escapeBraces t) width threshold? = .ok (layout m rs) :=
    bind_eq_ok.mpr ⟨rs, bind_eq_ok.mpr ⟨ts, hts, hcompiled⟩, rfl⟩
  refine ⟨layout m rs, hwrapped, ?_⟩
  rw [removeCodes_layout hts hescape hcompiled]
  -- blanks aside, the lines hold the escaped text
  have hink : Text.ink ((placements m rs).flatMap Placed.literal)
      = Text.ink (Text.escapeBraces t) := by
    rw [placements_ink, ofTokens_literal hcompiled, hplain]
  have hiff := Text.escaped_iff_unescaped_ink hink
  refine ⟨hiff.symm.trans Text.escaped_iff_lines, fun hnarrow => hiff.mp ?_⟩
  refine placements_escaped ?_
  rw [materialOf_atoms hcompiled]
  exact atom_escaped hcompiled hplain hnarrow

/-- A word with braces that fills its line, a dense word without braces, and a brace behind it. -/
theorem wrap_escapeBraces_full :
    let t := "a {b} abcdefg \x7d".toList
    let wrapped := "a\x1b[0m\n\x7b\x7bb\x7d\x7d\x1b[0m\nabcde\x1b[0m\nfg \x7d\x7d".toList
    Sgr.escape ∉ t
      ∧ (∀ w ∈ Text.words t, '{' ∈ w ∨ '}' ∈ w → (Text.width (Text.escapeBraces w) : Int) ≤ 5)
      ∧ Text.wrap Theme.standard (Text.escapeBraces t) 5 none = .ok wrapped
      ∧ Text.ink (Text.unescapeBraces (Text.removeCodes wrapped)) = Text.ink t := by
  intro t wrapped
  have ht : Sgr.escape ∉ t := by decide
  have hnarrow : ∀ w ∈ Text.words t, '{' ∈ w ∨ '}' ∈ w →
      (Text.width (Text.escapeBraces w) : Int) ≤ 5 := by
    with_unfolding_all decide
  have hwrapped : Text.wrap Theme.standard (Text.escapeBraces t) 5 none = .ok wrapped := by
    decide +kernel
  obtain ⟨wrapped', hwrapped', -, hback⟩ := wrap_escapeBraces Theme.standard ht 5 none
  obtain rfl : wrapped = wrapped' := Except.ok.inj (hwrapped.symm.trans hwrapped')
  exact ⟨ht, hnarrow, hwrapped, hback hnarrow⟩

/-- **A line end parts a pair of braces** that stands in a dense word. -/
theorem wrap_parts_braces :
    Sgr.escape ∉ "\x7b".toList
      ∧ Text.wrap Theme.standard (Text.escapeBraces "\x7b".toList) 1 none
          = .ok "\x7b\x1b[0m\n\x7b".toList
      ∧ Text.ink (Text.unescapeBraces (Text.removeCodes "\x7b\x1b[0m\n\x7b".toList))
          ≠ Text.ink "\x7b".toList := by
  with_unfolding_all decide

end TermMarkup
