/-
  TermMarkup.Proofs.Rewrap
  ────────────────────────
  WRAPPING WRAPPED TEXT changes nothing.  What wrapping gives is in a normal
  form: no tags, lines that fit, and everything off where a line ends.  Such a
  text is laid out as it is, and as no style is open at the ends of its lines,
  the layout adds nothing there.

    • `Text.Wrapped` — the normal form,
    • `wrap_wrapped` — wrapped text is in normal form,
    • `wrap_of_wrapped` — a text in normal form is wrapped as it is,
    • `wrap_idempotent` — so wrapping is idempotent.
-/
import TermMarkup.Proofs.CodeText
import TermMarkup.Proofs.Fitting
import TermMarkup.Proofs.LineEnds
import TermMarkup.Proofs.WrapLines

namespace TermMarkup

/-! ## §1. The normal form. -/

/-- A text without tags whose lines fit, without codes, in the width, and that has everything off at
its line ends and at its end. -/
structure Text.Wrapped (width : Int) (t : Text) : Prop where
  noBrace : '{' ∉ t
  settles : t.Settles Pen.blank Pen.blank
  plain : Sgr.escape ∉ dropMarks Mark.code? t
  narrow : ∀ line ∈ Text.lines (dropMarks Mark.code? t), (Text.width line : Int) ≤ width

/-- **Wrapped text is in normal form**, if no literal text has a brace or the escape character and
no cluster is wider than a line. -/
theorem wrap_wrapped {theme : Theme} {t wrapped : Text} {ts : List Token} (hts : t.tokens = .ok ts)
    (hplain : ∀ u, Token.literal u ∈ ts → Sgr.escape ∉ u ∧ '{' ∉ u) {width : Int}
    (hwidth : 0 ≤ width)
    (hclusters : ∀ word ∈ Token.words ts, ∀ run ∈ word, ∀ cluster ∈ Text.clusters run,
      (Text.width cluster : Int) ≤ width)
    (h : Text.wrap theme t width none = .ok wrapped) : wrapped.Wrapped width := by
  obtain ⟨u, rows, hcoded, hlines, hatoms, hgood, hliteral⟩ := wrap_rows hts h
  have hescape : Sgr.escape ∉ u := by
    intro hmem
    obtain ⟨v, hv, hin⟩ := hliteral _ hmem (by decide)
    exact (hplain v hv).1 hin
  have hbrace : '{' ∉ u := by
    intro hmem
    obtain ⟨v, hv, hin⟩ := hliteral _ hmem (by decide)
    exact (hplain v hv).2 hin
  -- without codes the text is that of its rows again
  have hdropped : dropMarks Mark.code? wrapped = u := hcoded.dropCodes_eq hescape false
  refine ⟨hcoded.notMem (by decide) hbrace, ?_, ?_, ?_⟩
  · exact wrap_settles hts (fun v hv => (hplain v hv).1) h
  · rw [hdropped]
    exact hescape
  · rw [hdropped, hlines]
    intro line hline
    obtain ⟨row, hrow, rfl⟩ := List.mem_map.mp hline
    have hnarrow := row_narrow (hgood row hrow) fun atom hatom =>
      width_atom_le_threshold hclusters atom (hatoms ▸ List.mem_flatMap.mpr ⟨row, hrow, hatom⟩)
    omega

/-! ## §2. Items with codes only. -/

theorem flatMap_written_items (rs : List Run) :
    (rs.flatMap Run.items).flatMap Item.written = rs.flatMap Run.written := by
  rw [List.flatMap_assoc]
  refine List.flatMap_congr fun r _ => ?_
  cases r with
  | text t =>
    show (t.map Item.char).flatMap Item.written = t
    rw [List.flatMap_map]
    exact List.flatMap_singleton' t
  | style codes active => exact List.append_nil codes

/-- Coherent items leave the pen of the styles that are open after them. -/
theorem items_emit {items : List Item} {active : List Entry} (h : Item.Coherent active items)
    (hplain : Item.char Sgr.escape ∉ items) :
    ∃ ss, Text.Emits (items.flatMap Item.written) ss
      ∧ (Pen.ofEntries active).follow ss = Pen.ofEntries (items.foldl Item.after active) := by
  induction items generalizing active with
  | nil => exact ⟨[], .nil, rfl⟩
  | cons x items ih =>
    rw [List.mem_cons, not_or] at hplain
    cases x with
    | char c =>
      obtain ⟨ss, hss, hpen⟩ := ih h hplain.2
      have hc : Sgr.escape ∉ [c] := by simpa using fun heq => hplain.1 (congrArg Item.char heq)
      exact ⟨_, (Text.Emits.plain hc).append hss, hpen⟩
    | style codes next =>
      obtain ⟨-, ⟨f, hf, hnext⟩, hrest⟩ := h
      obtain ⟨es, hes, heffects⟩ := hf.effects
      obtain ⟨ss, hss, hpen⟩ := ih hrest hplain.2
      refine ⟨_, hes.append hss, ?_⟩
      rw [Pen.follow_append, Pen.follow_effects, heffects, hnext, hpen]
      rfl

theorem mem_of_style_mem {rs : List Run} {codes : Text} {active : List Entry}
    (h : Item.style codes active ∈ rs.flatMap Run.items) : Run.style codes active ∈ rs := by
  obtain ⟨r, hr, h⟩ := List.mem_flatMap.mp h
  cases r with
  | text t =>
    obtain ⟨c, -, heq⟩ := List.mem_map.mp h
    exact nomatch heq
  | style codes' active' =>
    obtain ⟨rfl, rfl⟩ := Item.style.inj (List.mem_singleton.mp h)
    exact hr

theorem foldl_after_byCodes {items : List Item} {active : List Entry} (hs : ByCodes active)
    (h : ∀ codes next, Item.style codes next ∈ items → ByCodes next) :
    ByCodes (items.foldl Item.after active) := by
  induction items generalizing active with
  | nil => exact hs
  | cons x items ih =>
    have hrest := fun codes next hmem => h codes next (List.mem_cons_of_mem _ hmem)
    cases x with
    | char c => exact ih hs hrest
    | style codes next => exact ih (h codes next List.mem_cons_self) hrest

/-- **Where the items before leave the pen blank, no style is open.** -/
theorem active_eq_nil {t : Text} {rs : List Run} (hruns : CodeRuns t rs)
    (hplain : Item.char Sgr.escape ∉ rs.flatMap Run.items) {before after : List Item}
    (hsplit : rs.flatMap Run.items = before ++ after) {ss : List Signal}
    (hss : Text.signals (before.flatMap Item.written) = .ok ss)
    (hblank : Pen.blank.follow ss = Pen.blank) : before.foldl Item.after [] = [] := by
  have hcoherent := hruns.coherent
  rw [hsplit] at hcoherent hplain
  have hbefore := (Item.coherent_append.mp hcoherent).1
  rw [List.mem_append, not_or] at hplain
  obtain ⟨ss', hemits, hpen⟩ := items_emit hbefore hplain.1
  obtain rfl := Except.ok.inj (hss.symm.trans hemits.signals)
  refine entries_eq_nil (hbefore.sound fun e he => nomatch he) ?_ (hpen.symm.trans hblank)
  refine foldl_after_byCodes (fun e he => nomatch he) fun codes next hmem => ?_
  have hmem : Item.style codes next ∈ rs.flatMap Run.items :=
    hsplit ▸ List.mem_append_left _ hmem
  exact hruns.byCodes codes next (mem_of_style_mem hmem)

/-! ## §3. Wrapping again. -/

/-- **A text in normal form is wrapped as it is**, with any threshold. -/
theorem wrap_of_wrapped (theme : Theme) {t : Text} {width : Int} (h : t.Wrapped width)
    (threshold? : Option Int) : Text.wrap theme t width threshold? = .ok t := by
  obtain ⟨ss, hemits, hends, hpen⟩ := h.settles
  have hss := hemits.signals
  obtain ⟨rs, hrs, hruns⟩ := runs_codeRuns theme h.noBrace hss
  have hwritten : (rs.flatMap Run.items).flatMap Item.written = t := by
    rw [flatMap_written_items, hruns.written]
  have hplain : Item.char Sgr.escape ∉ rs.flatMap Run.items := by
    intro hmem
    refine h.plain ?_
    rw [← hruns.literal, ← flatMap_literal_items]
    exact List.mem_flatMap.mpr ⟨.char Sgr.escape, hmem, List.mem_singleton.mpr rfl⟩
  -- what stands before a newline leaves everything off, and so does the whole
  have hnewlines : ∀ before after, rs.flatMap Run.items = before ++ .char '\n' :: after →
      before.foldl Item.after [] = [] := by
    intro before after hsplit
    have htext : t = before.flatMap Item.written ++ '\n' :: after.flatMap Item.written := by
      rw [← hwritten, hsplit, List.flatMap_append]
      rfl
    rw [htext] at hss
    obtain ⟨as, bs, has, hneutral, -⟩ := neutral_before hss hends
    exact active_eq_nil hruns hplain hsplit has hneutral
  have hend : (rs.flatMap Run.items).foldl Item.after [] = [] :=
    active_eq_nil hruns hplain (List.append_nil _).symm (hwritten.symm ▸ hss) hpen
  have hfits : Item.Fits width 0 (rs.flatMap Run.items) :=
    fits_of_lines (by rw [hruns.literal]; exact h.narrow)
  have hlayout : layout ⟨width, threshold?.getD width⟩ rs = t := by
    rw [layout_of_fits hfits, laid_eq_written hnewlines hend, hwritten]
  exact bind_eq_ok.mpr ⟨rs, hrs, congrArg Except.ok hlayout⟩

/-- **Wrapping is idempotent.**  If no literal text of `t` holds an opening brace or the escape
character and no grapheme cluster of its literal runs is wider than a line, wrapped `t` is wrapped
to itself. -/
theorem wrap_idempotent {theme : Theme} {t wrapped : Text} {ts : List Token}
    (hts : t.tokens = .ok ts) (hplain : ∀ u, Token.literal u ∈ ts → Sgr.escape ∉ u ∧ '{' ∉ u)
    {width : Int} (hwidth : 1 ≤ width)
    (hclusters : ∀ word ∈ Token.words ts, ∀ run ∈ word, ∀ cluster ∈ Text.clusters run,
      (Text.width cluster : Int) ≤ width)
    (h : Text.wrap theme t width none = .ok wrapped) :
    Text.wrap theme wrapped width none = .ok wrapped :=
  wrap_of_wrapped theme (wrap_wrapped hts hplain (by omega) hclusters h) none

/-- Overlapping styles over a dense word, a line of the text that ends with blanks and with a style
open, and blanks at the start of the next. -/
theorem wrap_idempotent_overlap :
    let wrapped : Text :=
      "\x1b[1mab \x1b[31m\x1b[4mc\x1b[22m\x1b[39m\x1b[24m\x1b[0m\n".toList
        ++ "\x1b[1m\x1b[31m\x1b[4md\x1b[22mefg\x1b[39m\x1b[24m\x1b[0m\n".toList
        ++ "\x1b[31m\x1b[4mh  \x1b[39m\x1b[24m\x1b[0m\n".toList
        ++ "\x1b[31m\x1b[4m \x1b[24m世\x1b[39m\x1b[0m".toList
    Text.wrap Theme.standard "{bold}ab {red}\x1b[4mcd{/bold}efg h  \n \x1b[24m世".toList 4 none
        = .ok wrapped
      ∧ Text.wrap Theme.standard wrapped 4 none = .ok wrapped := by
  intro wrapped
  let ts : List Token :=
    [.tagOpen "{bold}".toList ["bold".toList], .literal "ab ".toList,
     .tagOpen "{red}".toList ["red".toList], .codeOpen "\x1b[4m".toList "\x1b[24m".toList,
     .literal "cd".toList, .tagClose "{/bold}".toList ["bold".toList],
     .literal "efg h  \n ".toList, .codeClose "\x1b[24m".toList, .literal "世".toList]
  have hts : Text.tokens "{bold}ab {red}\x1b[4mcd{/bold}efg h  \n \x1b[24m世".toList = .ok ts := by
    decide +kernel
  have hliteral : ∀ tok ∈ ts, Sgr.escape ∉ tok.plain ∧ '{' ∉ tok.plain := by decide
  have hplain : ∀ u, Token.literal u ∈ ts → Sgr.escape ∉ u ∧ '{' ∉ u :=
    fun u hu => hliteral _ hu
  have hclusters : ∀ word ∈ Token.words ts, ∀ run ∈ word, ∀ cluster ∈ Text.clusters run,
      (Text.width cluster : Int) ≤ 4 := by
    decide +kernel
  have hwrap : Text.wrap Theme.standard
      "{bold}ab {red}\x1b[4mcd{/bold}efg h  \n \x1b[24m世".toList 4 none = .ok wrapped := by
    decide +kernel
  exact ⟨hwrap, wrap_idempotent hts hplain (by decide) hclusters hwrap⟩

end TermMarkup
