/-
  TermMarkup.Proofs.FewestLines
  ─────────────────────────────
  NO WAY OF BREAKING A TEXT USES FEWER LINES than a layout does.  The literal
  text is atoms with blanks before them, and to break it is to cut the sequence
  of atoms into blocks, one a line; the blanks before the first atom of a line
  take no columns there.

  Next to any such breaking whose lines fit, the layout LEADS: it is on an
  earlier line, or on the same line and no further right.  One more atom keeps
  it in the lead, whichever of the two begins a line with it.

    • `Spaced`, `spaceOut`, `lineWidth` — atoms with blanks, and lines of them,
    • `spaced_text` — the literal text is its atoms with their blanks,
    • `lines_eq_spaced` — a layout has the lines that its spaced atoms need,
    • `Leads.next`, `leads_line`, `breaks_le` — one atom, one line, all lines,
    • `lines_fit` — the lines of wrapped text fit where all atoms do,
    • `wrap_fewest_lines` — wrapped text has the fewest lines.
-/
import TermMarkup.Proofs.Greedy
import TermMarkup.Proofs.Pieces
import TermMarkup.Proofs.WrapLines

namespace TermMarkup

/-! ## §1. Atoms with blanks before them. -/

/-- An atom, and the blanks that stand before it. -/
structure Spaced where
  gap : Text
  atom : Text
  deriving DecidableEq, Repr

/-- As it stands in the text. -/
def Spaced.text (s : Spaced) : Text := s.gap ++ s.atom

/-- The gap is blank, and the atom has ink only. -/
structure Spaced.Proper (s : Spaced) : Prop where
  blank : ∀ c ∈ s.gap, isBlank c = true
  ink : s.atom.IsInk

/-- The atoms of a text, one after the other, with the blanks before each. -/
def spaceOut (t : Text) : List Text → List Spaced
  | [] => []
  | atom :: atoms =>
    ⟨t.takeWhile isBlank, atom⟩ :: spaceOut ((t.dropWhile isBlank).drop atom.length) atoms

/-- The atoms of tokens, with the blanks before each. -/
def Token.spaced (threshold : Int) (ts : List Token) : List Spaced :=
  spaceOut (ts.flatMap Token.plain) (Token.atoms threshold ts)

/-- The columns of a line: those of its atoms and of the blanks between them. -/
def lineWidth : List Spaced → Nat
  | [] => 0
  | first :: rest => Text.width first.atom + Text.width (rest.flatMap Spaced.text)

/-- **Spacing out reads back atoms and their blanks.** -/
theorem spaceOut_eq {spaced : List Spaced} (h : ∀ s ∈ spaced, s.Proper) (trailing : Text) :
    spaceOut (spaced.flatMap Spaced.text ++ trailing) (spaced.map Spaced.atom) = spaced := by
  induction spaced with
  | nil => rfl
  | cons s spaced ih =>
    obtain ⟨hblank, hne, hink⟩ := h s List.mem_cons_self
    obtain ⟨c, atom, hatom⟩ := List.exists_cons_of_ne_nil hne
    have hc : isBlank c = false := hink c (hatom ▸ List.mem_cons_self)
    have htext : (s :: spaced).flatMap Spaced.text ++ trailing
        = s.gap ++ (s.atom ++ (spaced.flatMap Spaced.text ++ trailing)) := by
      rw [List.flatMap_cons, List.append_assoc]
      exact List.append_assoc _ _ _
    -- the gap ends where the ink of the atom begins
    have hcut : ∀ rest, (s.atom ++ rest).takeWhile isBlank = []
        ∧ (s.atom ++ rest).dropWhile isBlank = s.atom ++ rest := by
      intro rest
      rw [hatom, List.cons_append, List.takeWhile_cons, List.dropWhile_cons, hc]
      exact ⟨rfl, rfl⟩
    rw [List.map_cons, htext]
    show (⟨_, s.atom⟩ :: spaceOut _ _ : List Spaced) = _
    rw [List.takeWhile_append_of_pos hblank, List.dropWhile_append_of_pos hblank, (hcut _).1,
      (hcut _).2, List.drop_left, ih fun x hx => h x (List.mem_cons_of_mem _ hx), List.append_nil]

/-! ## §2. The atoms of material. -/

/-- The atoms of material with the blanks before each, after blanks that wait. -/
def spacedOf (gap : Text) : List Material → List Spaced
  | [] => []
  | .solid parts :: ws => ⟨gap, parts.flatMap Run.literal⟩ :: spacedOf [] ws
  | w :: ws => spacedOf (gap ++ w.text) ws

theorem spacedOf_atoms (gap : Text) (ws : List Material) :
    (spacedOf gap ws).map Spaced.atom = ws.flatMap Material.atoms := by
  induction ws generalizing gap with
  | nil => rfl
  | cons w ws ih =>
    cases w with
    | solid parts => exact congrArg _ (ih [])
    | _ => exact ih _

theorem nil_isBlank : ∀ c ∈ ([] : Text), isBlank c = true := fun _ hc => nomatch hc

/-- The material that is not solid is blank. -/
theorem Material.Proper.blank {w : Material} (hw : w.Proper) (hsolid : w.atoms = []) :
    ∀ c ∈ w.text, isBlank c = true := by
  cases w with
  | solid parts => exact nomatch hsolid
  | style codes active => exact fun c hc => nomatch hc
  | blank t =>
    intro c hc
    have htext : (Material.blank t).text = t := List.append_nil t
    exact (hw c (htext ▸ hc)).1
  | newline =>
    intro c hc
    obtain rfl := List.mem_singleton.mp hc
    exact isBlank_newline

/-- **The text of material is its atoms with their blanks**, and blanks at its end. -/
theorem spacedOf_text {ws : List Material} (hw : ∀ w ∈ ws, w.Proper)
    (hne : ∀ atom ∈ ws.flatMap Material.atoms, atom ≠ []) {gap : Text}
    (hgap : ∀ c ∈ gap, isBlank c = true) :
    (∀ s ∈ spacedOf gap ws, s.Proper)
      ∧ ∃ trailing, (∀ c ∈ trailing, isBlank c = true)
        ∧ gap ++ ws.flatMap Material.text = (spacedOf gap ws).flatMap Spaced.text ++ trailing := by
  induction ws generalizing gap with
  | nil => exact ⟨fun s hs => (nomatch hs), gap, hgap, List.append_nil gap⟩
  | cons w ws ih =>
    have hw' := fun x hx => hw x (List.mem_cons_of_mem _ hx)
    rw [List.flatMap_cons] at hne
    have hne' := fun atom hatom => hne atom (List.mem_append_right _ hatom)
    have hwait : w.atoms = [] → spacedOf gap (w :: ws) = spacedOf (gap ++ w.text) ws →
        (∀ s ∈ spacedOf gap (w :: ws), s.Proper)
          ∧ ∃ trailing, (∀ c ∈ trailing, isBlank c = true)
            ∧ gap ++ (w :: ws).flatMap Material.text
              = (spacedOf gap (w :: ws)).flatMap Spaced.text ++ trailing := by
      intro hnone hspaced
      have hall : ∀ c ∈ gap ++ w.text, isBlank c = true :=
        List.forall_mem_append.mpr ⟨hgap, (hw w List.mem_cons_self).blank hnone⟩
      have hrest := ih hw' hne' hall
      rw [List.append_assoc] at hrest
      rw [hspaced]
      exact hrest
    cases w with
    | solid parts =>
      obtain ⟨hproper, trailing, hblank, htext⟩ := ih hw' hne' nil_isBlank
      refine ⟨fun s hs => ?_, trailing, hblank, ?_⟩
      · rcases List.mem_cons.mp hs with rfl | hs
        · refine ⟨hgap, hne _ (List.mem_append_left _ List.mem_cons_self), fun c hc => ?_⟩
          obtain ⟨r, hr, hc⟩ := List.mem_flatMap.mp hc
          exact hw (.solid parts) List.mem_cons_self r hr c hc
        · exact hproper s hs
      · show gap ++ (parts.flatMap Run.literal ++ ws.flatMap Material.text)
          = (gap ++ parts.flatMap Run.literal ++ (spacedOf [] ws).flatMap Spaced.text) ++ trailing
        rw [List.nil_append] at htext
        rw [htext, List.append_assoc, List.append_assoc]
    | style codes active => exact hwait rfl rfl
    | blank t => exact hwait rfl rfl
    | newline => exact hwait rfl rfl

theorem materialOf_text (threshold : Int) (rs : List Run) :
    (materialOf threshold rs).flatMap Material.text = rs.flatMap Run.literal := by
  have hitems := congrArg (List.flatMap Item.literal) (materialOf_items threshold rs)
  rw [flatMap_literal_items, List.flatMap_assoc] at hitems
  rw [← hitems]
  exact List.flatMap_congr fun w _ => (flatMap_literal_items w.runs).symm

/-- **The spaced atoms of tokens are those of the material** of any runs with the same symbols. -/
theorem spaced_eq_of_symbols {ts : List Token} {rs : List Run}
    (h : (rs.flatMap fun r => symbolsOf r.literal) = ts.flatMap fun tok => symbolsOf tok.plain)
    (hliteral : rs.flatMap Run.literal = ts.flatMap Token.plain) (threshold : Int) :
    Token.spaced threshold ts = spacedOf [] (materialOf threshold rs)
      ∧ (∀ s ∈ Token.spaced threshold ts, s.Proper)
      ∧ ∃ trailing, (∀ c ∈ trailing, isBlank c = true)
        ∧ ts.flatMap Token.plain
          = (Token.spaced threshold ts).flatMap Spaced.text ++ trailing := by
  have hatoms := materialOf_atoms_of_symbols h threshold
  have hne : ∀ atom ∈ (materialOf threshold rs).flatMap Material.atoms, atom ≠ [] := by
    rw [hatoms]
    exact fun atom => atom_ne_nil
  obtain ⟨hproper, trailing, hblank, htext⟩ :=
    spacedOf_text (materialOf_proper threshold rs) hne nil_isBlank
  rw [List.nil_append, materialOf_text, hliteral] at htext
  have hspaced : Token.spaced threshold ts = spacedOf [] (materialOf threshold rs) := by
    unfold Token.spaced
    rw [htext, ← hatoms, ← spacedOf_atoms [], spaceOut_eq hproper]
  refine ⟨hspaced, ?_, trailing, hblank, ?_⟩
  · rw [hspaced]
    exact hproper
  · rw [hspaced]
    exact htext

/-- **The literal text of tokens is their atoms with the blanks before each**, and blanks at its
end. -/
theorem spaced_text (threshold : Int) (ts : List Token) :
    (Token.spaced threshold ts).map Spaced.atom = Token.atoms threshold ts
      ∧ (∀ s ∈ Token.spaced threshold ts, s.Proper)
      ∧ ∃ trailing, (∀ c ∈ trailing, isBlank c = true)
        ∧ ts.flatMap Token.plain
          = (Token.spaced threshold ts).flatMap Spaced.text ++ trailing := by
  -- for the literal text it does not matter what style tokens are compiled to
  let rs : List Run := ts.map fun tok => .text tok.plain
  have hsymbols : (rs.flatMap fun r => symbolsOf r.literal)
      = ts.flatMap fun tok => symbolsOf tok.plain :=
    List.flatMap_map ..
  have hliteral : rs.flatMap Run.literal = ts.flatMap Token.plain := List.flatMap_map ..
  obtain ⟨hspaced, hproper, htext⟩ := spaced_eq_of_symbols hsymbols hliteral threshold
  refine ⟨?_, hproper, htext⟩
  rw [hspaced, spacedOf_atoms, materialOf_atoms_of_symbols hsymbols]

/-! ## §3. Tallies of spaced atoms. -/

/-- The tally after an atom with blanks before it. -/
def Tally.next (width : Int) (T : Tally) (s : Spaced) : Tally :=
  (T.wait (Text.width s.gap)).put width (Text.width s.atom)

/-- The line ends of material are those of its spaced atoms. -/
theorem foldl_take_breaks (width : Int) {T : Tally} {gap : Text} (hgap : T.gap = Text.width gap)
    (ws : List Material) :
    (ws.foldl (Tally.take width) T).breaks
      = ((spacedOf gap ws).foldl (Tally.next width) ⟨T.breaks, T.column, 0⟩).breaks := by
  induction ws generalizing T gap with
  | nil => rfl
  | cons w ws ih =>
    have hwait : T.take width w = T.wait (Text.width w.text) →
        spacedOf gap (w :: ws) = spacedOf (gap ++ w.text) ws →
        ((w :: ws).foldl (Tally.take width) T).breaks
          = ((spacedOf gap (w :: ws)).foldl (Tally.next width) ⟨T.breaks, T.column, 0⟩).breaks := by
      intro htake hspaced
      rw [List.foldl_cons, htake, hspaced]
      refine ih (T := T.wait (Text.width w.text)) ?_
      rw [Text.width_append, ← hgap]
      rfl
    cases w with
    | solid parts =>
      have hput : (T.take width (.solid parts)).gap = Text.width [] := Tally.put_gap
      have hnext : Tally.next width ⟨T.breaks, T.column, 0⟩ ⟨gap, parts.flatMap Run.literal⟩
          = T.take width (.solid parts) := by
        show Tally.put width (Text.width (parts.flatMap Run.literal)) ⟨_, _, 0 + Text.width gap⟩
          = T.put width (runsWidth parts)
        rw [runsWidth_eq, Nat.zero_add, ← hgap]
      have hrest := ih hput
      show (ws.foldl _ (T.take width (.solid parts))).breaks
        = ((spacedOf [] ws).foldl _ (Tally.next width ⟨T.breaks, T.column, 0⟩ _)).breaks
      rw [hrest, hnext]
      exact congrArg (fun n => (List.foldl _ (Tally.mk _ _ n) _).breaks) hput.symm
    | style codes active => exact hwait rfl rfl
    | blank t => exact hwait rfl rfl
    | newline => exact hwait rfl rfl

/-- **Wrapped text has the lines that its spaced atoms need.** -/
theorem lines_eq_spaced {theme : Theme} {t wrapped : Text} {ts : List Token}
    (hts : t.tokens = .ok ts) (hline : '\n' ∉ t) {width : Int} {threshold? : Option Int}
    (h : Text.wrap theme t width threshold? = .ok wrapped) :
    (Text.lines wrapped).length
      = ((Token.spaced (threshold?.getD width) ts).foldl (Tally.next width) .start).breaks + 1 := by
  obtain ⟨rs, -, hcompiled, rfl⟩ := wrap_eq_ok hts h
  have hliteral : '\n' ∉ rs.flatMap Run.literal := by
    rw [ofTokens_literal hcompiled]
    exact fun hmem => hline ((tokens_plain_sublist hts).subset hmem)
  -- codes stay on their lines, so the layout has as many lines as its text
  have hcoded := layout_coded (ofTokens_coherent hcompiled empty_sound (tokens_codeFormed hts))
    ⟨width, threshold?.getD width⟩
  have hspaced := (spaced_eq_of_symbols (ofTokens_symbols hcompiled) (ofTokens_literal hcompiled)
    (threshold?.getD width)).1
  have hbreaks := foldl_take_breaks width (show Tally.start.gap = Text.width [] from rfl)
    (materialOf (threshold?.getD width) rs)
  rw [← hcoded.lines.length_eq, placements_lines hliteral, hspaced]
  exact congrArg (· + 1) hbreaks

/-! ## §4. The lead. -/

variable {width : Int} {T : Tally} {line column : Nat}

/-- The layout is on an earlier line than `line`, or on it and not beyond `column`. -/
structure Tally.Leads (T : Tally) (line column : Nat) : Prop where
  gap : T.gap = 0
  ahead : T.breaks < line ∨ T.breaks = line ∧ T.column ≤ column

/-- **What one more atom does**: it joins the line, it begins one, or it is alone on a line that has
no columns. -/
theorem next_cases (width : Int) (s : Spaced) (hgap : T.gap = 0) :
    T.next width s = ⟨T.breaks, T.column + Text.width s.gap + Text.width s.atom, 0⟩
      ∨ (width < T.column + Text.width s.gap + Text.width s.atom
        ∧ T.next width s = ⟨T.breaks + 1, Text.width s.atom, 0⟩)
      ∨ T.next width s = ⟨T.breaks, Text.width s.atom, 0⟩ := by
  have hwait : T.wait (Text.width s.gap) = ⟨T.breaks, T.column, Text.width s.gap⟩ := by
    unfold Tally.wait
    rw [hgap, Nat.zero_add]
  have hzero : 0 + Text.width s.atom = Text.width s.atom := Nat.zero_add _
  unfold Tally.next Tally.put
  rw [hwait]
  rcases Tally.room_cases width (Text.width s.atom) ⟨T.breaks, T.column, Text.width s.gap⟩ with
    ⟨-, h⟩ | ⟨hwide, -, h⟩ | ⟨-, -, h⟩
  · rw [h]
    exact .inl rfl
  · rw [h]
    exact .inr (.inl ⟨hwide, congrArg (Tally.mk _ · _) hzero⟩)
  · rw [h]
    exact .inr (.inr (congrArg (Tally.mk _ · _) hzero))

/-- **One more atom on the same line keeps the lead**: where the layout begins a line, it was not
beyond the column and so is on an earlier line. -/
theorem Tally.Leads.next (h : T.Leads line column) {s : Spaced}
    (hfits : (column + Text.width s.text : Int) ≤ width) :
    (T.next width s).Leads line (column + Text.width s.text) := by
  have hahead := h.ahead
  have hwidth : Text.width s.text = Text.width s.gap + Text.width s.atom := Text.width_append _ _
  rw [hwidth] at hfits ⊢
  rcases next_cases width s h.gap with heq | ⟨hwide, heq⟩ | heq
  all_goals
    rw [heq]
    refine ⟨rfl, ?_⟩
    dsimp only
    omega

/-- **An atom that begins the next line keeps the lead**, wherever the layout puts it. -/
theorem leads_of_breaks_le (hgap : T.gap = 0) (h : T.breaks ≤ line) (width : Int) (s : Spaced) :
    (T.next width s).Leads (line + 1) (Text.width s.atom) := by
  rcases next_cases width s hgap with heq | ⟨-, heq⟩ | heq
  all_goals
    rw [heq]
    refine ⟨rfl, ?_⟩
    dsimp only
    omega

/-- The lead is kept along a line that fits. -/
theorem leads_line {rest : List Spaced} (h : T.Leads line column)
    (hfits : (column + Text.width (rest.flatMap Spaced.text) : Int) ≤ width) :
    (rest.foldl (Tally.next width) T).Leads line
      (column + Text.width (rest.flatMap Spaced.text)) := by
  induction rest generalizing T column with
  | nil => exact h
  | cons s rest ih =>
    rw [List.flatMap_cons, Text.width_append] at hfits ⊢
    have hfirst : (column + Text.width s.text : Int) ≤ width := by omega
    have hrest : ((column + Text.width s.text : Nat) + Text.width (rest.flatMap Spaced.text) : Int)
        ≤ width := by
      omega
    rw [List.foldl_cons, ← Nat.add_assoc]
    exact ih (h.next hfirst) hrest

/-- **The lead is kept along lines that fit.** -/
theorem breaks_le {blocks : List (List Spaced)} (hgap : T.gap = 0) (h : T.breaks ≤ line)
    (hfits : ∀ block ∈ blocks, (lineWidth block : Int) ≤ width) :
    (blocks.flatten.foldl (Tally.next width) T).breaks ≤ line + blocks.length := by
  -- on the lines of the other breaking: after each the layout is no further down
  induction blocks generalizing T line with
  | nil => exact h
  | cons block blocks ih =>
    have hfirst := hfits block List.mem_cons_self
    have hrest := fun b hb => hfits b (List.mem_cons_of_mem _ hb)
    rw [List.flatten_cons, List.foldl_append, List.length_cons]
    have hblock : (block.foldl (Tally.next width) T).gap = 0
        ∧ (block.foldl (Tally.next width) T).breaks ≤ line + 1 := by
      cases block with
      | nil => exact ⟨hgap, Nat.le_succ_of_le h⟩
      | cons s rest =>
        obtain ⟨hzero, hahead⟩ := leads_line (leads_of_breaks_le hgap h width s) hfirst
        exact ⟨hzero, by rw [List.foldl_cons]; omega⟩
    have hlater := ih hblock.1 hblock.2 hrest
    omega

/-- **Greedy breaking uses the fewest lines**, if no blank stands before the first atom. -/
theorem greedy_fewest {blocks : List (List Spaced)} (hne : blocks ≠ [])
    (hstart : ∀ s ∈ blocks.flatten.head?, s.gap = [])
    (hfits : ∀ block ∈ blocks, (lineWidth block : Int) ≤ width) :
    (blocks.flatten.foldl (Tally.next width) .start).breaks + 1 ≤ blocks.length := by
  obtain ⟨first, rest, rfl⟩ := List.exists_cons_of_ne_nil hne
  have hrest := fun b hb => hfits b (List.mem_cons_of_mem _ hb)
  rw [List.flatten_cons, List.foldl_append, List.length_cons]
  rw [List.flatten_cons] at hstart
  -- the first line of the layout is the first line of the breaking
  have hfirst : (first.foldl (Tally.next width) .start).gap = 0
      ∧ (first.foldl (Tally.next width) .start).breaks ≤ 0 := by
    cases first with
    | nil => exact ⟨rfl, Nat.le_refl 0⟩
    | cons s line =>
      have hgap : s.gap = [] := hstart s rfl
      have hlead : (Tally.start.next width s).Leads 0 (Text.width s.atom) := by
        have hwidth : Text.width s.gap = 0 := by rw [hgap, Text.width_nil]
        unfold Tally.next Tally.put
        rcases Tally.room_cases width (Text.width s.atom) (Tally.start.wait (Text.width s.gap)) with
          ⟨-, h⟩ | ⟨-, hcolumn, -⟩ | ⟨-, -, h⟩
        · rw [h, hwidth]
          exact ⟨rfl, .inr ⟨rfl, Nat.le_of_eq (Nat.zero_add _)⟩⟩
        · exact absurd hcolumn (Nat.lt_irrefl 0)
        · rw [h]
          exact ⟨rfl, .inr ⟨rfl, Nat.le_of_eq (Nat.zero_add _)⟩⟩
      obtain ⟨hzero, hahead⟩ := leads_line hlead (hfits _ List.mem_cons_self)
      exact ⟨hzero, by rw [List.foldl_cons]; omega⟩
  have hlater := breaks_le hfirst.1 hfirst.2 hrest
  omega

/-! ## §5. Texts. -/

/-- If the literal text does not begin with a blank, none stands before the first atom. -/
theorem gap_eq_nil {threshold : Int} {ts : List Token}
    (hstart : ∀ c ∈ (ts.flatMap Token.plain).head?, isBlank c = false) :
    ∀ s ∈ (Token.spaced threshold ts).head?, s.gap = [] := by
  intro s hs
  obtain ⟨-, hproper, trailing, -, htext⟩ := spaced_text threshold ts
  obtain ⟨rest, hspaced⟩ := List.head?_eq_some_iff.mp hs
  have hblank := (hproper s (hspaced ▸ List.mem_cons_self)).blank
  cases hgap : s.gap with
  | nil => rfl
  | cons c gap =>
    have hhead : (ts.flatMap Token.plain).head? = some c := by
      rw [htext, hspaced, List.flatMap_cons]
      unfold Spaced.text
      rw [hgap]
      rfl
    have hink := hstart c hhead
    rw [hblank c (hgap ▸ List.mem_cons_self)] at hink
    exact nomatch hink

/-- An atom is no wider than a line that it stands on. -/
theorem atom_le_lineWidth {block : List Spaced} {s : Spaced} (hs : s ∈ block) :
    Text.width s.atom ≤ lineWidth block := by
  cases block with
  | nil => exact nomatch hs
  | cons first rest =>
    show _ ≤ Text.width first.atom + Text.width (rest.flatMap Spaced.text)
    rcases List.mem_cons.mp hs with rfl | hs
    · exact Nat.le_add_right _ _
    · have hatom : s.atom.Sublist s.text := List.sublist_append_right _ _
      have hline : s.text.Sublist (rest.flatMap Spaced.text) :=
        List.sublist_flatten_of_mem (List.mem_map_of_mem hs)
      have hle := width_le_of_sublist (hatom.trans hline)
      omega

/-- Where no atom is wider than a line may be, no line of wrapped text is too wide. -/
theorem lines_fit {theme : Theme} {t wrapped : Text} {ts : List Token} (hts : t.tokens = .ok ts)
    {width : Int} (hwidth : 0 ≤ width) {threshold? : Option Int}
    (h : Text.wrap theme t width threshold? = .ok wrapped)
    (hatoms : ∀ atom ∈ Token.atoms (threshold?.getD width) ts, (Text.width atom : Int) ≤ width) :
    ∀ line ∈ Text.lines wrapped, (Text.visibleWidth line : Int) ≤ width := by
  obtain ⟨u, rows, hcoded, hlines, hrows, hgood, -⟩ := wrap_rows hts h
  intro line hline
  obtain ⟨text, htext, hline⟩ := exists_of_forall₂ hcoded.lines hline
  rw [hlines] at htext
  obtain ⟨row, hrow, rfl⟩ := List.mem_map.mp htext
  have hnarrow := row_narrow (hgood row hrow) fun atom hatom =>
    hatoms atom (hrows ▸ List.mem_flatMap.mpr ⟨row, hrow, hatom⟩)
  have hle := visibleWidth_le hline
  omega

/-- **No way of breaking a text uses fewer lines than wrapping it.**  Let `t` have no newline, and
let its literal text not begin with a blank.  If the atoms of `t` can be cut into blocks that are no
wider as lines than `width`, no line of wrapped `t` is wider, and there are no more lines than
blocks. -/
theorem wrap_fewest_lines {theme : Theme} {t wrapped : Text} {ts : List Token}
    (hts : t.tokens = .ok ts) (hline : '\n' ∉ t)
    (hstart : ∀ c ∈ (ts.flatMap Token.plain).head?, isBlank c = false) {width : Int}
    (h : Text.wrap theme t width none = .ok wrapped) {blocks : List (List Spaced)}
    (hne : blocks ≠ []) (hblocks : blocks.flatten = Token.spaced width ts)
    (hfits : ∀ block ∈ blocks, (lineWidth block : Int) ≤ width) :
    (∀ line ∈ Text.lines wrapped, (Text.visibleWidth line : Int) ≤ width)
      ∧ (Text.lines wrapped).length ≤ blocks.length := by
  constructor
  · -- the blocks fit, so the width is not negative and no atom is wider
    obtain ⟨block, hblock⟩ := List.exists_mem_of_ne_nil blocks hne
    have hwidth := hfits block hblock
    refine lines_fit hts (by omega) h fun atom hatom => ?_
    have hatom : atom ∈ Token.atoms width ts := hatom
    rw [← (spaced_text width ts).1, ← hblocks] at hatom
    obtain ⟨s, hs, rfl⟩ := List.mem_map.mp hatom
    obtain ⟨block, hblock, hs⟩ := List.mem_flatten.mp hs
    have hle := atom_le_lineWidth hs
    have hblock := hfits block hblock
    omega
  · have hlines := lines_eq_spaced hts hline h
    have hgap : ∀ s ∈ blocks.flatten.head?, s.gap = [] := by
      rw [hblocks]
      exact gap_eq_nil hstart
    have hfewest := greedy_fewest hne hgap hfits
    rw [hblocks] at hfewest
    rw [hlines]
    exact hfewest

/-- A dense word of wide characters: wrapping breaks it after `d`, another way breaks it before. -/
theorem wrap_fewest_lines_dense :
    let blocks : List (List Spaced) :=
      [[⟨[], ['a', 'a']⟩], [⟨[' '], ['b', 'b']⟩], [⟨[' ', ' '], ['世']⟩, ⟨[], ['界']⟩],
       [⟨[], ['c']⟩, ⟨[], ['世']⟩], [⟨[], ['d']⟩, ⟨[' '], ['e']⟩]]
    ∃ ts wrapped, Text.tokens "aa b{bold}b  世界c世d{/bold} e".toList = .ok ts
      ∧ Text.wrap Theme.standard "aa b{bold}b  世界c世d{/bold} e".toList 4 none = .ok wrapped
      ∧ blocks.flatten = Token.spaced 4 ts ∧ (∀ block ∈ blocks, (lineWidth block : Int) ≤ 4)
      ∧ (∀ line ∈ Text.lines wrapped, (Text.visibleWidth line : Int) ≤ 4)
      ∧ (Text.lines wrapped).length ≤ blocks.length := by
  intro blocks
  let ts : List Token :=
    [.literal "aa b".toList, .tagOpen "{bold}".toList ["bold".toList],
     .literal "b  世界c世d".toList, .tagClose "{/bold}".toList ["bold".toList],
     .literal " e".toList]
  have hts : Text.tokens "aa b{bold}b  世界c世d{/bold} e".toList = .ok ts := by decide +kernel
  have hstart : ∀ c ∈ (ts.flatMap Token.plain).head?, isBlank c = false := by
    intro c hc
    obtain rfl := Option.some.inj (show some 'a' = some c from hc)
    decide
  have hwrap : ∃ wrapped, Text.wrap Theme.standard "aa b{bold}b  世界c世d{/bold} e".toList 4 none
      = .ok wrapped :=
    ⟨"aa\x1b[0m\nb\x1b[1mb\x1b[22m\x1b[0m\n\x1b[1m世界\x1b[22m\x1b[0m\n".toList
      ++ "\x1b[1mc世d\x1b[22m\x1b[0m\ne".toList, by decide +kernel⟩
  have hblocks : blocks.flatten = Token.spaced 4 ts := by decide +kernel
  have hfits : ∀ block ∈ blocks, (lineWidth block : Int) ≤ 4 := by decide +kernel
  obtain ⟨wrapped, hwrap⟩ := hwrap
  exact ⟨ts, wrapped, hts, hwrap, hblocks, hfits,
    wrap_fewest_lines hts (by decide) hstart hwrap (by decide) hblocks hfits⟩

end TermMarkup
