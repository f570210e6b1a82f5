/-
  TermMarkup.Proofs.TrailingBlanks
  ────────────────────────────────
  WHERE AN INPUT LINE ENDS in wrapped text.  The output lines that show an input
  line are followed from its start to its end: a layout wraps only a line that
  holds ink, and a word is put down last, so at the end of the input line all
  that stands behind the ink is what has been waiting since the last word.

    • `OutputLines`, `OutputLines.Holds`, `OutputLines.Settled` — the output lines
      of an input line so far, what they hold, and that they end in ink,
    • `Step.Extends` — a step goes on from such lines to others,
    • `makeRoom_extends`, `each_placeDense_extends`, `ofUnit_extends` — a word does,
    • `InputLine.ShownIn`, `shownIn_flushPending` — the end of an input line,
    • `unitsText_shows` — the output lines of a layout, input line by input line,
    • `wrap_cuts_trailing` — the blanks at the ends of lines of wrapped text.
-/
import TermMarkup.Proofs.InputLines
import TermMarkup.Proofs.KeptRuns

namespace TermMarkup

/-! ## §1. Output lines. -/

/-- The output lines of an input line: those that are ended, and the last one so far. -/
structure OutputLines where
  ended : List Text
  last : Text

namespace OutputLines

/-- No text yet. -/
def empty : OutputLines := ⟨[], []⟩

/-- The lines. -/
def all (ls : OutputLines) : List Text := ls.ended ++ [ls.last]

/-- The text of the lines. -/
def text (ls : OutputLines) : Text := (ls.ended.flatMap fun l => l ++ ['\n']) ++ ls.last

/-- Puts text down in the last line. -/
def put (ls : OutputLines) (t : Text) : OutputLines := ⟨ls.ended, ls.last ++ t⟩

/-- Ends the last line. -/
def wrap (ls : OutputLines) : OutputLines := ⟨ls.all, []⟩

/-- The lines hold `ink`, the last one takes `column` columns, and those that are ended have
ink. -/
structure Holds (ls : OutputLines) (column : Nat) (ink : Text) : Prop where
  column : Text.width ls.last = column
  ink : Text.ink ls.all.flatten = ink
  oneLine : ∀ l ∈ ls.all, '\n' ∉ l
  inked : ∀ l ∈ ls.ended, Text.ink l ≠ []

/-- Nothing is put down yet, or the last character is ink. -/
def Settled (ls : OutputLines) : Prop :=
  ls = empty ∨ ∃ c, ls.last.getLast? = some c ∧ isBlank c = false

variable {ls : OutputLines} {column : Nat} {ink : Text}

theorem text_put (ls : OutputLines) (t : Text) : (ls.put t).text = ls.text ++ t :=
  (List.append_assoc _ _ _).symm

theorem text_wrap (ls : OutputLines) : ls.wrap.text = ls.text ++ ['\n'] := by
  unfold text wrap all
  rw [List.flatMap_append, List.flatMap_singleton, List.append_nil, List.append_assoc]

theorem lines_text (h : ∀ l ∈ ls.all, '\n' ∉ l) : Text.lines ls.text = ls.all := by
  unfold text
  rw [Text.lines_ended fun l hl => h l (List.mem_append_left _ hl),
    Text.lines_of_notMem (h ls.last (by simp [all]))]
  rfl

theorem lines_text_newline (h : ∀ l ∈ ls.all, '\n' ∉ l) (rest : Text) :
    Text.lines (ls.text ++ '\n' :: rest) = ls.all ++ Text.lines rest := by
  have hended : ls.text ++ '\n' :: rest = (ls.all.flatMap fun l => l ++ ['\n']) ++ rest := by
    simp [text, all]
  rw [hended, Text.lines_ended h]

theorem empty_holds : empty.Holds 0 [] :=
  ⟨rfl, rfl, fun _ hl => List.mem_singleton.mp hl ▸ List.not_mem_nil, fun _ hl => nomatch hl⟩

theorem Holds.put (h : ls.Holds column ink) {t : Text} (ht : '\n' ∉ t) :
    (ls.put t).Holds (column + Text.width t) (ink ++ t.ink) := by
  have hline := h.oneLine ls.last (by simp [all])
  refine ⟨?_, ?_, ?_, h.inked⟩
  · rw [← h.column]
    exact Text.width_append _ _
  · rw [← h.ink, ← Text.ink_append]
    simp [all, OutputLines.put]
  · intro l hl
    rcases List.mem_append.mp hl with hl | hl
    · exact h.oneLine l (List.mem_append_left _ hl)
    · rw [List.mem_singleton.mp hl]
      exact fun hmem => (List.mem_append.mp hmem).elim hline ht

theorem Holds.wrap (h : ls.Holds column ink) (hink : Text.ink ls.last ≠ []) :
    ls.wrap.Holds 0 ink := by
  refine ⟨rfl, ?_, ?_, ?_⟩
  · rw [← h.ink]
    simp [all, OutputLines.wrap]
  · intro l hl
    rcases List.mem_append.mp hl with hl | hl
    · exact h.oneLine l hl
    · rw [List.mem_singleton.mp hl]
      exact List.not_mem_nil
  · intro l hl
    rcases List.mem_append.mp hl with hl | hl
    · exact h.inked l hl
    · rwa [List.mem_singleton.mp hl]

/-- Ink settles the lines. -/
theorem settled_put {t : Text} (ht : t.IsInk) : (ls.put t).Settled := by
  right
  refine ⟨t.getLast ht.1, ?_, ht.2 _ (List.getLast_mem ht.1)⟩
  show (ls.last ++ t).getLast? = _
  rw [List.getLast?_append, List.getLast?_eq_some_getLast ht.1]
  rfl

/-- A settled line with text has ink. -/
theorem Settled.ink_ne_nil (h : ls.Settled) (hne : ls.last ≠ []) : Text.ink ls.last ≠ [] := by
  rcases h with rfl | ⟨c, hc, hink⟩
  · exact absurd rfl hne
  · exact List.ne_nil_of_mem (List.mem_filter.mpr ⟨List.mem_of_getLast? hc, by simp [hink]⟩)

/-- A settled line that takes columns can be wrapped. -/
theorem Holds.wrap_settled (h : ls.Holds column ink) (hs : ls.Settled) (hpos : 0 < column) :
    ls.wrap.Holds 0 ink := by
  refine h.wrap (hs.ink_ne_nil fun hnil => ?_)
  have hzero := h.column
  rw [hnil, Text.width_nil] at hzero
  omega

end OutputLines

/-! ## §2. What a step adds. -/

namespace Step

variable {m : Measure} {step next : Step} {c : Cursor} {ls ls' ls'' : OutputLines} {ink ink' : Text}

/-- From the cursor `c` the step goes on from the lines `ls` to `ls'`, which hold `ink`, and leaves
nothing waiting. -/
structure Extends (step : Step) (c : Cursor) (ls : OutputLines) (ink : Text) (ls' : OutputLines) :
    Prop where
  holds : ls'.Holds (step c).2.column ink
  text : ls'.text = ls.text ++ (step c).1.flatMap Placed.literal
  pending : (step c).2.pending = []

theorem Extends.andThen (h : Extends step c ls ink ls')
    (h' : Extends next (step c).2 ls' ink' ls'') : Extends (andThen step next) c ls ink' ls'' := by
  refine ⟨h'.holds, ?_, h'.pending⟩
  rw [h'.text, h.text, andThen_apply, List.flatMap_append, List.append_assoc]

/-- What a step does is what it puts down and the next cursor. -/
theorem Extends.of_eq {c' : Cursor} (h : Extends next c' ls ink ls') (heq : step c = next c') :
    Extends step c ls ink ls' := by
  obtain ⟨hholds, htext, hpending⟩ := h
  rw [← heq] at hholds htext hpending
  exact ⟨hholds, htext, hpending⟩

theorem wrap_extends (h : ls.Holds c.column ink) (hs : ls.Settled) (hpos : 0 < c.column) :
    Extends wrap c ls ink ls.wrap := by
  refine ⟨h.wrap_settled hs hpos, ?_, ?_⟩
  · rw [wrap_literal, OutputLines.text_wrap]
  · show (each place (c.pending.filter fun r => !r.isText) { c with pending := [] }).2.pending = []
    rw [each_place]

/-- Runs that are placed extend the last line. -/
theorem each_place_extends (h : ls.Holds c.column ink) (hc : c.pending = []) {parts : List Run}
    (hparts : '\n' ∉ parts.flatMap Run.literal) :
    Extends (each place parts) c ls (ink ++ Text.ink (parts.flatMap Run.literal))
      (ls.put (parts.flatMap Run.literal)) := by
  refine ⟨?_, ?_, ?_⟩
  · rw [each_place, runsWidth_eq]
    exact h.put hparts
  · rw [each_place_literal, OutputLines.text_put]
  · rw [each_place]
    exact hc

/-- Making room adds no ink. -/
theorem makeRoom_extends (m : Measure) (extra : Nat) (h : ls.Holds c.column ink) (hs : ls.Settled)
    (hpending : ∀ d ∈ c.pending.flatMap Run.literal, isBlank d = true ∧ d ≠ '\n') :
    ∃ ls', Extends (makeRoom m extra) c ls ink ls' := by
  have hblank : Text.ink (c.pending.flatMap Run.literal) = [] :=
    Text.ink_eq_nil fun d hd => (hpending d hd).1
  have hline : '\n' ∉ c.pending.flatMap Run.literal := fun hmem => (hpending _ hmem).2 rfl
  by_cases hfits : fits m c (runsWidth c.pending + extra) = true
  · -- what waits is placed
    have hplace := each_place_extends (c := { c with pending := [] }) h rfl hline
    rw [hblank, List.append_nil] at hplace
    exact ⟨_, hplace.of_eq (if_pos hfits)⟩
  · by_cases hpos : 0 < c.column
    · exact ⟨_, (wrap_extends h hs hpos).of_eq ((if_neg hfits).trans (if_pos hpos))⟩
    · have hstep : makeRoom m extra c = dropPendingBlanks c := (if_neg hfits).trans (if_neg hpos)
      refine ⟨ls, ?_, ?_, (makeRoom_laysAt m extra c).1.2⟩
      · rw [hstep, (dropPendingBlanks_laysAt (m := m) c).2]
        exact h
      · rw [hstep, dropPendingBlanks_literal, List.append_nil]

/-- The lines can take a piece of the given width: it is not put behind blanks where it does not
fit. -/
def Ready (m : Measure) (c : Cursor) (ls : OutputLines) (extra : Nat) : Prop :=
  ls.Settled ∨ c.column = 0 ∨ (c.column + extra : Int) ≤ m.width

/-- A cluster extends the last line or begins another. -/
theorem placeCluster_extends {g : Text} (hg : g.IsInk) (h : ls.Holds c.column ink)
    (hc : c.pending = []) (hready : Ready m c ls (Text.width g)) :
    ∃ ls', Extends (placeCluster m g) c ls (ink ++ g) ls' ∧ ls'.Settled := by
  have hplace : ∀ {c : Cursor} {ls : OutputLines}, ls.Holds c.column ink → c.pending = [] →
      Extends (place (.text g)) c ls (ink ++ g) (ls.put g) := by
    intro c ls h hc
    have hline : '\n' ∉ [Run.text g].flatMap Run.literal := by
      rw [List.flatMap_singleton]
      exact fun hmem => ne_newline_of_ink (hg.2 _ hmem) rfl
    have heach := each_place_extends h hc hline
    rw [List.flatMap_singleton] at heach
    have hink : Text.ink (Run.text g).literal = g := Text.ink_eq_self hg.2
    rw [hink] at heach
    exact heach
  by_cases hfits : (0 < c.column && !fits m c (Text.width g)) = true
  · obtain ⟨hpos, hwide⟩ := Bool.and_eq_true_iff.mp hfits
    have hpos : 0 < c.column := of_decide_eq_true hpos
    -- the cluster does not fit, so the line has been settled
    have hs : ls.Settled := by
      refine hready.resolve_right fun hroom => ?_
      rcases hroom with hzero | hroom
      · omega
      · have hfits : fits m c (Text.width g) = true := decide_eq_true hroom
        rw [hfits] at hwide
        exact nomatch hwide
    have hwrap := wrap_extends h hs hpos
    have hboth := hwrap.andThen (hplace hwrap.holds hwrap.pending)
    exact ⟨_, hboth.of_eq (if_pos hfits), OutputLines.settled_put hg⟩
  · exact ⟨_, (hplace h hc).of_eq (if_neg hfits), OutputLines.settled_put hg⟩

/-- Clusters extend the lines one after the other; the first one settles them. -/
theorem each_placeCluster_extends {gs : List Text} (hgs : ∀ g ∈ gs, g.IsInk)
    (h : ls.Holds c.column ink) (hc : c.pending = [])
    (hready : ∀ g ∈ gs.head?, Ready m c ls (Text.width g)) :
    ∃ ls', Extends (each (placeCluster m) gs) c ls (ink ++ gs.flatten) ls'
      ∧ (ls.Settled ∨ gs ≠ [] → ls'.Settled) := by
  induction gs generalizing c ls ink with
  | nil =>
    rw [List.flatten_nil, List.append_nil]
    exact ⟨ls, ⟨h, (List.append_nil _).symm, hc⟩, fun hs => hs.resolve_right fun hne => hne rfl⟩
  | cons g gs ih =>
    obtain ⟨hg, hgs⟩ := List.forall_mem_cons.mp hgs
    obtain ⟨mid, hfirst, hs⟩ := placeCluster_extends hg h hc (hready g rfl)
    obtain ⟨ls', hrest, hsettled⟩ := ih hgs hfirst.holds hfirst.pending fun _ _ => .inl hs
    rw [List.flatten_cons, ← List.append_assoc]
    exact ⟨ls', hfirst.andThen hrest, fun _ => hsettled (.inl hs)⟩

/-- The parts of a dense word extend the lines one after the other. -/
theorem each_placeDense_extends {parts : List Run} (hparts : ∀ t ∈ textsOf parts, t.IsInk)
    (h : ls.Holds c.column ink) (hc : c.pending = [])
    (hready : Ready m c ls (firstClusterWidth parts)) :
    ∃ ls', Extends (each (placeDense m) parts) c ls (ink ++ parts.flatMap Run.literal) ls'
      ∧ (ls.Settled ∨ parts.any Run.isText = true → ls'.Settled) := by
  induction parts generalizing c ls ink with
  | nil =>
    rw [List.flatMap_nil, List.append_nil]
    exact ⟨ls, ⟨h, (List.append_nil _).symm, hc⟩, fun hs => hs.resolve_right Bool.false_ne_true⟩
  | cons r parts ih =>
    cases r with
    | style codes active =>
      have hfirst : Extends (placeDense m (.style codes active)) c ls ink ls :=
        ⟨h, (List.append_nil _).symm, hc⟩
      obtain ⟨ls', hrest, hsettled⟩ := ih hparts hfirst.holds hfirst.pending hready
      exact ⟨ls', hfirst.andThen hrest, hsettled⟩
    | text t =>
      obtain ⟨ht, hparts⟩ := List.forall_mem_cons.mp hparts
      have hclusters : ∀ g ∈ Text.clusters t, g.IsInk := fun g hg =>
        ⟨cluster_ne_nil hg, fun d hd => ht.2 d (mem_of_mem_clusters hg d hd)⟩
      have hne : Text.clusters t ≠ [] := by
        intro hnil
        have hflat := Text.clusters_flatten t
        rw [hnil] at hflat
        exact ht.1 hflat.symm
      have hhead : ∀ g ∈ (Text.clusters t).head?, Ready m c ls (Text.width g) := by
        intro g hg
        obtain ⟨gs, hcut⟩ := List.head?_eq_some_iff.mp hg
        have hwidth : firstClusterWidth (.text t :: parts)
            = Text.width ((Text.clusters t).headD []) := rfl
        rw [hwidth, hcut] at hready
        exact hready
      obtain ⟨mid, hfirst, hs⟩ := each_placeCluster_extends hclusters h hc hhead
      have hs := hs (.inr hne)
      obtain ⟨ls', hrest, hsettled⟩ := ih hparts hfirst.holds hfirst.pending (.inl hs)
      rw [Text.clusters_flatten, List.append_assoc] at hrest
      exact ⟨ls', hfirst.andThen hrest, fun _ => hsettled (.inl hs)⟩

/-- **A word extends the lines and settles them.** -/
theorem ofUnit_extends {parts : List Run} (htext : parts.any Run.isText = true)
    (hparts : ∀ t ∈ textsOf parts, t.IsInk) (h : ls.Holds c.column ink) (hs : ls.Settled)
    (hpending : ∀ d ∈ c.pending.flatMap Run.literal, isBlank d = true ∧ d ≠ '\n') :
    ∃ ls', Extends (ofUnit m (.word parts)) c ls (ink ++ parts.flatMap Run.literal) ls'
      ∧ ls'.Settled := by
  have hink := word_isInk hparts htext
  by_cases hdense : m.threshold < runsWidth parts
  · obtain ⟨mid, hroom⟩ := makeRoom_extends m (firstClusterWidth parts) h hs hpending
    have hready : Ready m (makeRoom m (firstClusterWidth parts) c).2 mid
        (firstClusterWidth parts) :=
      .inr (makeRoom_laysAt m (firstClusterWidth parts) c).2.symm
    obtain ⟨ls', hword, hsettled⟩ := each_placeDense_extends hparts hroom.holds hroom.pending hready
    exact ⟨ls', (hroom.andThen hword).of_eq (ofUnit_dense htext hdense), hsettled (.inr htext)⟩
  · obtain ⟨mid, hroom⟩ := makeRoom_extends m (runsWidth parts) h hs hpending
    have hword := each_place_extends hroom.holds hroom.pending
      fun hmem => ne_newline_of_ink (hink.2 _ hmem) rfl
    rw [Text.ink_eq_self hink.2] at hword
    exact ⟨_, (hroom.andThen hword).of_eq (ofUnit_narrow htext hdense),
      OutputLines.settled_put hink⟩

end Step

/-! ## §3. Input lines. -/

/-- The columns that are left behind the ink of an output line. -/
def roomBehind (width : Int) (last : Text) : Int := width - Text.width (last.rdropWhile isBlank)

/-- An input line is shown in the output lines `group`: they hold its ink, and none is without ink
unless it is the only one.  Behind the ink of the last are blanks from the end of the input line, of
each run as much as fits.  So they are cut off where they do not fit, unless they are thinned
out. -/
structure InputLine.ShownIn (width : Int) (line : InputLine) (group : List Text) : Prop where
  ink : Text.ink group.flatten = Text.ink line.text
  inked : ∀ l ∈ group, Text.ink l = [] → group = [l]
  ending : ∃ last ∈ group.getLast?,
    Text.KeptRuns (roomBehind width last) line.trailing (last.rtakeWhile isBlank)
      ∧ (Text.LongestFitting (roomBehind width last) line.trailing.flatten
            (last.rtakeWhile isBlank)
          ↔ ¬Text.Thinned (roomBehind width last) line.trailing)

/-- Behind settled lines all blanks are at the end. -/
theorem OutputLines.Settled.split {ls : OutputLines} (h : ls.Settled) {kept : Text}
    (hkept : ∀ c ∈ kept, isBlank c = true) :
    (ls.last ++ kept).rtakeWhile isBlank = kept
      ∧ (ls.last ++ kept).rdropWhile isBlank = ls.last := by
  have hlast : ∀ c ∈ ls.last.reverse.head?, isBlank c = false := by
    rw [List.head?_reverse]
    rcases h with rfl | ⟨d, hd, hink⟩
    · exact fun c hc => nomatch hc
    · intro c hc
      obtain rfl := Option.some.inj (hd.symm.trans hc)
      exact hink
  have hblank : ∀ c ∈ kept.reverse, isBlank c = true := by simpa using hkept
  have hrun := Text.takeWhile_run hblank hlast
  unfold List.rtakeWhile List.rdropWhile
  rw [List.reverse_append, hrun.1, hrun.2, List.reverse_reverse, List.reverse_reverse]
  exact ⟨rfl, rfl⟩

section

variable {m : Measure} {c : Cursor} {ls : OutputLines} {line : InputLine}

/-- **At the end of an input line** the blanks that wait are put down as far as they fit. -/
theorem shownIn_flushPending (h : ls.Holds c.column (Text.ink line.text)) (hs : ls.Settled)
    (hpending : ∀ d ∈ c.pending.flatMap Run.literal, isBlank d = true ∧ d ≠ '\n')
    (htrailing : textsOf c.pending = line.trailing) :
    line.ShownIn m.width (ls.put ((Step.flushPending m c).1.flatMap Placed.literal)).all
      ∧ ∀ l ∈ (ls.put ((Step.flushPending m c).1.flatMap Placed.literal)).all, '\n' ∉ l := by
  have hruns := Step.flushPending_keptRuns m c
  have hblank : ∀ d ∈ (Step.flushPending m c).1.flatMap Placed.literal,
      isBlank d = true ∧ d ≠ '\n' := fun d hd => hpending d (Step.flushPending_literal m c d hd)
  generalize (Step.flushPending m c).1.flatMap Placed.literal = kept at hruns hblank ⊢
  have hput := h.put fun hmem => (hblank _ hmem).2 rfl
  obtain ⟨htake, hdrop⟩ := hs.split fun d hd => (hblank d hd).1
  refine ⟨⟨?_, fun l hl hnone => ?_, ls.last ++ kept, List.getLast?_concat, ?_⟩, hput.oneLine⟩
  · rw [hput.ink, Text.ink_eq_nil fun d hd => (hblank d hd).1, List.append_nil]
  · rcases List.mem_append.mp hl with hl | hl
    · exact absurd hnone (h.inked l hl)
    · -- a last line without ink is all that there is
      rw [List.mem_singleton.mp hl, show (ls.put kept).last = ls.last ++ kept from rfl,
        Text.ink_append] at hnone
      have hempty : ls = .empty := by
        refine hs.resolve_right ?_
        rintro ⟨d, hd, hink⟩
        have hne : ls.last ≠ [] := List.ne_nil_of_mem (List.mem_of_getLast? hd)
        exact hs.ink_ne_nil hne (List.append_eq_nil_iff.mp hnone).1
      rw [List.mem_singleton.mp hl, hempty]
      rfl
  · unfold roomBehind
    rw [htake, hdrop, h.column, ← htrailing]
    exact ⟨hruns, Text.keptRuns_longest_iff hruns⟩

/-- **The output lines of a layout show the input lines**, one group of them after the other. -/
theorem unitsText_shows {units : List LayoutUnit} (hunits : LayoutUnit.Spread units)
    (hproper : ∀ u ∈ units, u.Proper) (h : ls.Holds c.column (Text.ink line.text))
    (hs : ls.Settled)
    (hpending : ∀ d ∈ c.pending.flatMap Run.literal, isBlank d = true ∧ d ≠ '\n')
    (htrailing : textsOf c.pending = line.trailing) :
    ∃ groups : List (List Text), Text.lines (ls.text ++ unitsText m units c) = groups.flatten
      ∧ List.Forall₂ (InputLine.ShownIn m.width) (unitLines line units) groups := by
  -- on the units, for the lines that each of them finds
  induction hunits generalizing c ls line with
  | nil =>
    obtain ⟨hshown, hline⟩ := shownIn_flushPending h hs hpending htrailing
    refine ⟨[_], ?_, .cons hshown .nil⟩
    rw [unitsText_nil, ← OutputLines.text_put, OutputLines.lines_text hline,
      List.flatten_singleton]
  | newline _ ih =>
    obtain ⟨hshown, hline⟩ := shownIn_flushPending h hs hpending htrailing
    have hnone : (Step.ofUnit m .newline c).2.pending = [] := (Step.flushPending_laysAt c).2
    have hempty : OutputLines.empty.Holds (Step.ofUnit m .newline c).2.column
        (Text.ink InputLine.empty.text) :=
      OutputLines.empty_holds
    obtain ⟨groups, hlines, hgroups⟩ := ih (fun u hu => hproper u (List.mem_cons_of_mem _ hu))
      hempty (.inl rfl) (hnone ▸ fun d hd => nomatch hd) (hnone ▸ rfl)
    refine ⟨_ :: groups, ?_, .cons hshown hgroups⟩
    rw [unitsText_newline, ← List.append_assoc, ← OutputLines.text_put,
      OutputLines.lines_text_newline hline, List.flatten_cons, ← hlines]
    rfl
  | @blank t rest _ _ _ ih =>
    have ht : ∀ d ∈ t, isBlank d = true ∧ d ≠ '\n' := hproper (.blank t) List.mem_cons_self
    show ∃ groups : List (List Text),
      Text.lines (ls.text ++ unitsText m rest ⟨c.column, c.pending ++ [.text t], c.active⟩)
          = groups.flatten
        ∧ List.Forall₂ _ (unitLines ⟨line.text ++ t, line.trailing ++ [t]⟩ rest) groups
    refine ih (fun u hu => hproper u (List.mem_cons_of_mem _ hu)) ?_ hs ?_ ?_
    · rw [Text.ink_append, Text.ink_eq_nil fun d hd => (ht d hd).1, List.append_nil]
      exact h
    · rw [List.flatMap_append, List.flatMap_singleton]
      exact List.forall_mem_append.mpr ⟨hpending, ht⟩
    · rw [textsOf_append_text, htrailing]
  | @word parts rest hparts _ _ ih =>
    have hrest := fun u hu => hproper u (List.mem_cons_of_mem (LayoutUnit.word parts) hu)
    rw [unitsText_cons, unitLines]
    unfold InputLine.addWord
    cases htext : parts.any Run.isText with
    | false =>
      rw [Step.ofUnit_silent htext, if_neg (by simp)]
      refine ih hrest h hs ?_ ?_
      · rw [List.flatMap_append, (word_silent htext).2, List.append_nil]
        exact hpending
      · rw [textsOf_append, textsOf_silent htext, List.append_nil]
        exact htrailing
    | true =>
      obtain ⟨ls', hword, hs'⟩ := Step.ofUnit_extends (m := m) htext hparts h hs hpending
      rw [← List.append_assoc, ← hword.text, if_pos rfl]
      refine ih hrest ?_ hs' (hword.pending ▸ fun d hd => nomatch hd) (hword.pending ▸ rfl)
      rw [Text.ink_append, Text.ink_eq_self (word_isInk hparts htext).2]
      exact hword.holds

end

/-! ## §4. Wrapped text. -/

/-- **Blanks at the end of a line are kept as far as they fit.**  If no literal text of `t` holds
the escape character, the lines of wrapped `t` without codes show the lines of the text without
style tokens, one group of them after the other.  At the end of each group the blanks of the input
line are kept run by run.  All in all that is the longest start of them that fits, unless a narrower
run stands behind a blank that does not fit. -/
theorem wrap_cuts_trailing {theme : Theme} {t wrapped : Text} {ts : List Token}
    (hts : t.tokens = .ok ts) (hplain : ∀ v, Token.literal v ∈ ts → Sgr.escape ∉ v) {width : Int}
    {threshold? : Option Int} (h : Text.wrap theme t width threshold? = .ok wrapped) :
    (Token.inputLines ts).map InputLine.text = Text.lines (ts.flatMap Token.plain)
      ∧ (∀ line ∈ Token.inputLines ts, line.trailing.flatten = line.text.rtakeWhile isBlank)
      ∧ ∃ groups : List (List Text), Text.lines (Text.removeCodes wrapped) = groups.flatten
        ∧ List.Forall₂ (InputLine.ShownIn width) (Token.inputLines ts) groups := by
  refine ⟨inputLines_text ts, fun line hline => inputLines_trailing hline, ?_⟩
  obtain ⟨rs, -, hcompiled, rfl⟩ := wrap_eq_ok hts h
  have hnil : (LayoutUnit.word []).Proper := fun r hr => nomatch hr
  -- without codes, the wrapped text is what the layout puts down
  have hcoded := layout_coded (ofTokens_coherent hcompiled empty_sound (tokens_codeFormed hts))
    ⟨width, threshold?.getD width⟩
  have hescape : Sgr.escape ∉ (placements ⟨width, threshold?.getD width⟩ rs).flatMap
      Placed.literal :=
    fun hmem => ofTokens_plain hcompiled hplain (mem_items_of_placed hmem (by decide))
  rw [hcoded.removeCodes_eq hescape, ← unitLines_eq hcompiled]
  exact unitsText_shows (c := Cursor.start) (ofRuns_spread nil_isInk rs) (ofRuns_proper hnil rs)
    OutputLines.empty_holds (.inl rfl) (fun d hd => nomatch hd) rfl

/-- Of the blanks on the first line one is cut off.  On the second line the wide blank does not fit,
and the narrow one behind it is kept. -/
theorem wrap_cuts_trailing_runs :
    Text.wrap Theme.standard "a{bold}  {/bold} \nb\u3000{bold} {/bold}".toList 2 none
        = .ok "a\x1b[1m \x1b[22m\nb\x1b[1m \x1b[22m".toList
      ∧ ∃ groups : List (List Text),
        Text.lines (Text.removeCodes "a\x1b[1m \x1b[22m\nb\x1b[1m \x1b[22m".toList)
            = groups.flatten
          ∧ List.Forall₂ (InputLine.ShownIn 2)
            [⟨"a   ".toList, ["  ".toList, " ".toList]⟩,
             ⟨"b\u3000 ".toList, ["\u3000".toList, " ".toList]⟩] groups := by
  let ts : List Token :=
    [.literal "a".toList, .tagOpen "{bold}".toList ["bold".toList], .literal "  ".toList,
     .tagClose "{/bold}".toList ["bold".toList], .literal " \nb\u3000".toList,
     .tagOpen "{bold}".toList ["bold".toList], .literal " ".toList,
     .tagClose "{/bold}".toList ["bold".toList]]
  have hts : Text.tokens "a{bold}  {/bold} \nb\u3000{bold} {/bold}".toList = .ok ts := by
    decide +kernel
  have hliteral : ∀ tok ∈ ts, Sgr.escape ∉ tok.plain := by decide
  have hplain : ∀ v, Token.literal v ∈ ts → Sgr.escape ∉ v := fun v hv => hliteral _ hv
  have hlines : Token.inputLines ts
      = [⟨"a   ".toList, ["  ".toList, " ".toList]⟩,
         ⟨"b\u3000 ".toList, ["\u3000".toList, " ".toList]⟩] := by
    decide +kernel
  have hwrap : Text.wrap Theme.standard "a{bold}  {/bold} \nb\u3000{bold} {/bold}".toList 2 none
      = .ok "a\x1b[1m \x1b[22m\nb\x1b[1m \x1b[22m".toList := by
    decide +kernel
  exact ⟨hwrap, hlines ▸ (wrap_cuts_trailing hts hplain hwrap).2.2⟩

/-- The blanks at the end of a line are not always a start of those in the text: the narrow blank is
kept although the wide one in front of it does not fit. -/
theorem wrap_thins_trailing :
    ∃ ts wrapped, Text.tokens "a\u3000{bold} {/bold}".toList = .ok ts
      ∧ (∀ tok ∈ ts, Sgr.escape ∉ tok.plain)
      ∧ Text.wrap Theme.standard "a\u3000{bold} {/bold}".toList 2 none = .ok wrapped
      ∧ Text.lines (ts.flatMap Token.plain) = ["a\u3000 ".toList]
      ∧ Text.lines (Text.removeCodes wrapped) = ["a ".toList]
      ∧ ¬("a ".toList.rtakeWhile isBlank <+: "a\u3000 ".toList.rtakeWhile isBlank) := by
  refine ⟨[.literal "a\u3000".toList, .tagOpen "{bold}".toList ["bold".toList], .literal " ".toList,
    .tagClose "{/bold}".toList ["bold".toList]], "a\x1b[1m \x1b[22m".toList, ?_⟩
  decide +kernel

end TermMarkup
