/-
  TermMarkup.Proofs.Separation
  ────────────────────────────
  WORDS STAY APART.  A layout drops blanks between words in two places: at a
  wrap, which puts a newline there instead, and at the start of a line.  But it
  tells the start of a line by the column, so it also drops the blanks behind
  words that take NO COLUMNS, and the next word joins them.  That is the only
  way in which words of a text can be joined.

    • `words_ink` — the words of a text that begins with a word,
    • `Text.Joined` — words of which some are joined to the next,
    • `ofRuns_spread` — between any two word units there is something else,
    • `makeRoom_literal` — what is put down in front of a word,
    • `unitsText_separates` — the words of a layout,
    • `wrap_keeps_words` — the words of wrapped text.
-/
import TermMarkup.Proofs.Fitting
import TermMarkup.Proofs.WrapLines

namespace TermMarkup

/-! ## §1. Words of a text. -/

/-- The text begins with a character that is no blank. -/
def Text.BeginsInk (t : Text) : Prop := ∃ c, t.head? = some c ∧ isBlank c = false

/-- A text that begins with ink has no blanks in front. -/
theorem Text.BeginsInk.of_blanks {b t : Text} (h : Text.BeginsInk (b ++ t))
    (hb : ∀ c ∈ b, isBlank c = true) : b = [] := by
  obtain ⟨c, hc, hink⟩ := h
  cases b with
  | nil => rfl
  | cons d b =>
    obtain rfl := Option.some.inj hc
    exact absurd (hb d List.mem_cons_self) (by simp [hink])

/-- The first field is a word if it is not empty. -/
theorem words_of_fields {t first : Text} {rest : List Text}
    (h : Text.fieldsBy isBlank t = first :: rest) (hne : first ≠ []) :
    Text.words t = first :: rest.filter fun w => !w.isEmpty := by
  unfold Text.words
  rw [h]
  exact List.filter_cons_of_pos (by simpa using hne)

/-- **A word in front of a text** is a word of its own, or joins the first word if the text begins
with it. -/
theorem words_ink {w : Text} (hw : w.IsInk) (t : Text) :
    (¬t.BeginsInk ∧ Text.words (w ++ t) = w :: Text.words t)
      ∨ (t.BeginsInk ∧ ∃ v vs, Text.words t = v :: vs ∧ Text.words (w ++ t) = (w ++ v) :: vs) := by
  cases t with
  | nil =>
    left
    refine ⟨fun ⟨_, h, _⟩ => (nomatch h), ?_⟩
    have hone : Text.words w = [w] := words_of_fields (Text.fieldsBy_of_none hw.2) hw.1
    rw [List.append_nil]
    exact hone
  | cons c t =>
    cases hc : isBlank c with
    | true =>
      left
      refine ⟨?_, ?_⟩
      · rintro ⟨d, hd, hink⟩
        obtain rfl := Option.some.inj hd
        exact absurd hc (by simp [hink])
      · have hrest : Text.words (c :: t) = Text.words t :=
          Text.words_blanks (b := [c]) (fun d hd => List.mem_singleton.mp hd ▸ hc) t
        rw [hrest]
        exact words_of_fields (Text.fieldsBy_append_cons hw.2 hc t) hw.1
    | false =>
      -- the first field of the text begins with its first character, so it is a word
      right
      have hone : ∀ d ∈ [c], isBlank d = false := fun d hd => List.mem_singleton.mp hd ▸ hc
      obtain ⟨first, rest, -, hcut⟩ := Text.fieldsBy_append hone t
      obtain ⟨first', rest', hfirst, hjoined⟩ := Text.fieldsBy_append hw.2 (c :: t)
      obtain ⟨rfl, rfl⟩ := List.cons.inj (hfirst.symm.trans hcut)
      exact ⟨⟨c, rfl, hc⟩, _, _, words_of_fields hfirst (List.cons_ne_nil c first),
        words_of_fields hjoined (by simp)⟩

/-- The second words are the first, some of them joined to the next: only words that take no columns
are. -/
inductive Text.Joined : List Text → List Text → Prop
  | nil : Joined [] []
  | apart (w : Text) {ws vs : List Text} : Joined ws vs → Joined (w :: ws) (w :: vs)
  | join {w : Text} {ws vs : List Text} {v : Text} :
      Text.width w = 0 → Joined ws (v :: vs) → Joined (w :: ws) ((w ++ v) :: vs)

/-- Words that take columns are not joined. -/
theorem Text.Joined.eq {ws vs : List Text} (h : Joined ws vs) (hws : ∀ w ∈ ws, 0 < Text.width w) :
    vs = ws := by
  induction h with
  | nil => rfl
  | apart w _ ih => rw [ih fun v hv => hws v (List.mem_cons_of_mem _ hv)]
  | join hw _ _ => exact absurd (hws _ List.mem_cons_self) (by omega)

theorem joined_ink {w t : Text} {ws : List Text} (hw : w.IsInk) (h : Text.Joined ws (Text.words t))
    (hwidth : t.BeginsInk → Text.width w = 0) : Text.Joined (w :: ws) (Text.words (w ++ t)) := by
  rcases words_ink hw t with ⟨-, hwords⟩ | ⟨hbegins, v, vs, ht, hwords⟩
  · rw [hwords]
    exact .apart w h
  · rw [hwords]
    rw [ht] at h
    exact .join (hwidth hbegins) h

/-! ## §2. Spread units. -/

/-- Units as runs are cut: blanks and words are not empty, and between two words there is something
else. -/
inductive LayoutUnit.Spread : List LayoutUnit → Prop
  | nil : Spread []
  | newline {rest : List LayoutUnit} : Spread rest → Spread (.newline :: rest)
  | blank {t : Text} {rest : List LayoutUnit} :
      t ≠ [] → (∀ c ∈ t, isBlank c = true) → Spread rest → Spread (.blank t :: rest)
  | word {parts : List Run} {rest : List LayoutUnit} :
      (∀ t ∈ textsOf parts, t.IsInk) → (∀ parts', rest.head? ≠ some (.word parts')) → Spread rest →
      Spread (.word parts :: rest)

theorem flush_spread {word : List Run} (hword : ∀ t ∈ textsOf word, t.IsInk)
    {rest : List LayoutUnit} (hrest : LayoutUnit.Spread rest)
    (hhead : ∀ parts, rest.head? ≠ some (.word parts)) :
    LayoutUnit.Spread (LayoutUnit.flush word rest) := by
  unfold LayoutUnit.flush
  split
  · exact hrest
  · exact .word hword hhead hrest

theorem ofChunks_spread {cs : List Chunk} (hcs : Chunk.Cut cs) {word : List Run}
    (hword : ∀ t ∈ textsOf word, t.IsInk) {rest : List LayoutUnit}
    (hrest : LayoutUnit.Spread rest) :
    LayoutUnit.Spread ((LayoutUnit.ofChunks word cs).1 ++ rest) := by
  -- on the chunks: what closes the open word is no word
  induction hcs generalizing word with
  | nil => exact hrest
  | newline _ ih =>
    show LayoutUnit.Spread (LayoutUnit.flush word (.newline :: _) ++ rest)
    rw [flush_append]
    exact flush_spread hword (.newline (ih nil_isInk)) fun _ h => nomatch h
  | blank hne ht _ ih =>
    show LayoutUnit.Spread (LayoutUnit.flush word (.blank _ :: _) ++ rest)
    rw [flush_append]
    have hrest := LayoutUnit.Spread.blank hne (fun c hc => (ht c hc).1) (ih nil_isInk)
    exact flush_spread hword hrest fun _ h => nomatch h
  | @ink t cs hne ht _ _ ih =>
    refine ih ?_
    rw [textsOf_append_text]
    exact isInk_append hword ⟨hne, ht⟩

/-- **The units of runs are spread.** -/
theorem ofRuns_spread {word : List Run} (hword : ∀ t ∈ textsOf word, t.IsInk) (rs : List Run) :
    LayoutUnit.Spread (LayoutUnit.ofRuns word rs) := by
  induction rs generalizing word with
  | nil => exact flush_spread hword .nil fun _ h => nomatch h
  | cons r rs ih =>
    cases r with
    | style codes active =>
      refine ih ?_
      rw [textsOf_append_style]
      exact hword
    | text t =>
      exact ofChunks_spread (chunks_cut t) hword (ih (ofChunks_isInk (chunks_cut t) hword))

theorem exists_mem_textsOf {parts : List Run} (h : parts.any Run.isText = true) :
    ∃ t, t ∈ textsOf parts := by
  obtain ⟨r, hr, htext⟩ := List.any_eq_true.mp h
  exact ⟨r.literal, List.mem_map_of_mem (List.mem_filter.mpr ⟨hr, htext⟩)⟩

/-- A word unit with text holds one word. -/
theorem word_text {parts : List Run} (h : parts.any Run.isText = true) :
    (LayoutUnit.word parts).words.map List.flatten = [parts.flatMap Run.literal] := by
  obtain ⟨t, ht⟩ := exists_mem_textsOf h
  have hword : closeWord (textsOf parts) = [textsOf parts] :=
    List.filter_cons_of_pos (by simpa using List.ne_nil_of_mem ht)
  show (closeWord (textsOf parts)).map List.flatten = _
  rw [hword, ← flatten_textsOf]
  rfl

/-- A word unit without text holds none. -/
theorem word_silent {parts : List Run} (h : parts.any Run.isText = false) :
    (LayoutUnit.word parts).words = [] ∧ parts.flatMap Run.literal = [] := by
  have hnone := textsOf_silent h
  have hword : (LayoutUnit.word parts).words = closeWord (textsOf parts) := rfl
  rw [hword, ← flatten_textsOf, hnone]
  exact ⟨rfl, rfl⟩

/-- The literal text of a word unit is ink, if there is any. -/
theorem word_isInk {parts : List Run} (hparts : ∀ t ∈ textsOf parts, t.IsInk)
    (h : parts.any Run.isText = true) : Text.IsInk (parts.flatMap Run.literal) := by
  obtain ⟨t, ht⟩ := exists_mem_textsOf h
  rw [← flatten_textsOf]
  constructor
  · exact fun hnil => (hparts t ht).1 (List.flatten_eq_nil_iff.mp hnil t ht)
  · intro c hc
    obtain ⟨u, hu, hc⟩ := List.mem_flatten.mp hc
    exact (hparts u hu).2 c hc

/-- Units that do not begin with a word have no ink in front. -/
theorem LayoutUnit.Spread.not_beginsInk {units : List LayoutUnit} (h : Spread units)
    (hhead : ∀ parts, units.head? ≠ some (.word parts)) :
    ¬Text.BeginsInk ((units.flatMap LayoutUnit.runs).flatMap Run.literal) := by
  intro hbegins
  cases h with
  | nil =>
    obtain ⟨c, hc, -⟩ := hbegins
    exact nomatch hc
  | newline _ =>
    have hnil := Text.BeginsInk.of_blanks (b := ['\n']) hbegins fun c hc =>
      List.mem_singleton.mp hc ▸ isBlank_newline
    exact nomatch hnil
  | blank hne ht _ => exact hne (Text.BeginsInk.of_blanks hbegins ht)
  | word _ _ _ => exact hhead _ rfl

/-- **The words of spread units are the words of their text.** -/
theorem words_units {units : List LayoutUnit} (h : LayoutUnit.Spread units) :
    Text.words ((units.flatMap LayoutUnit.runs).flatMap Run.literal)
      = (units.flatMap LayoutUnit.words).map List.flatten := by
  induction h with
  | nil => rfl
  | newline _ ih =>
    refine Eq.trans ?_ ih
    exact Text.words_blanks (b := ['\n']) (fun c hc => List.mem_singleton.mp hc ▸ isBlank_newline) _
  | blank _ ht _ ih =>
    refine Eq.trans ?_ ih
    exact Text.words_blanks ht _
  | @word parts rest hparts hhead hrest ih =>
    rw [List.flatMap_cons, List.flatMap_append, List.flatMap_cons, List.map_append, ← ih]
    show Text.words (parts.flatMap Run.literal ++ _) = _
    cases htext : parts.any Run.isText with
    | false =>
      rw [(word_silent htext).1, (word_silent htext).2]
      rfl
    | true =>
      -- no word stands behind a word, so it is a word of its own
      have hapart := (words_ink (word_isInk hparts htext) _).resolve_right
        fun hjoins => hrest.not_beginsInk hhead hjoins.1
      rw [word_text htext]
      exact hapart.2

/-! ## §3. What is put down around a word. -/

namespace Step

variable {m : Measure} {c : Cursor}

theorem each_place_literal (parts : List Run) (c : Cursor) :
    (each place parts c).1.flatMap Placed.literal = parts.flatMap Run.literal := by
  rw [each_place]
  exact flatMap_literal_run parts

theorem dropPendingBlanks_literal (c : Cursor) :
    (dropPendingBlanks c).1.flatMap Placed.literal = [] := by
  refine (each_place_literal (c.pending.filter fun r => !r.isText) _).trans ?_
  refine List.flatMap_eq_nil_iff.mpr fun r hr => ?_
  have hstyle := (List.mem_filter.mp hr).2
  cases r with
  | text t => exact nomatch hstyle
  | style codes active => rfl

/-- A wrap drops the waiting blanks. -/
theorem wrap_literal (c : Cursor) : (wrap c).1.flatMap Placed.literal = ['\n'] := by
  show ((dropPendingBlanks c).1 ++ [Placed.wrap _]).flatMap Placed.literal = _
  rw [List.flatMap_append, dropPendingBlanks_literal]
  rfl

/-- **In front of a word** there is put what waits, or a newline, or nothing in column zero. -/
theorem makeRoom_literal (m : Measure) (next : Nat) (c : Cursor) :
    (makeRoom m next c).1.flatMap Placed.literal = c.pending.flatMap Run.literal
      ∨ (makeRoom m next c).1.flatMap Placed.literal = ['\n']
      ∨ ((makeRoom m next c).1.flatMap Placed.literal = [] ∧ c.column = 0) := by
  unfold makeRoom
  split
  · exact .inl (each_place_literal c.pending _)
  · split
    · exact .inr (.inl (wrap_literal c))
    · exact .inr (.inr ⟨dropPendingBlanks_literal c, by omega⟩)

/-- A word without text is let wait. -/
theorem ofUnit_silent {parts : List Run} (h : parts.any Run.isText = false) (m : Measure)
    (c : Cursor) : ofUnit m (.word parts) c = ([], ⟨c.column, c.pending ++ parts, c.active⟩) := by
  unfold ofUnit
  dsimp only
  rw [h]
  rfl

/-- A word that is not dense is placed behind what makes room for all of it. -/
theorem ofUnit_narrow {parts : List Run} (htext : parts.any Run.isText = true)
    (hnarrow : ¬m.threshold < runsWidth parts) :
    ofUnit m (.word parts) c
      = andThen (makeRoom m (runsWidth parts)) (each place parts) c := by
  unfold ofUnit
  dsimp only
  rw [htext, if_neg (by simp), if_neg hnarrow]

/-- A dense word is placed part by part, behind what makes room for its first cluster. -/
theorem ofUnit_dense {parts : List Run} (htext : parts.any Run.isText = true)
    (hdense : m.threshold < runsWidth parts) :
    ofUnit m (.word parts) c
      = andThen (makeRoom m (firstClusterWidth parts)) (each (placeDense m) parts) c := by
  unfold ofUnit
  dsimp only
  rw [htext, if_neg (by simp), if_pos hdense]

/-- **A word that is not dense** is put down behind what makes room for it, and takes its
columns. -/
theorem ofUnit_word {parts : List Run} (htext : parts.any Run.isText = true)
    (hnarrow : (runsWidth parts : Int) ≤ m.threshold) :
    (ofUnit m (.word parts) c).1.flatMap Placed.literal
        = (makeRoom m (runsWidth parts) c).1.flatMap Placed.literal ++ parts.flatMap Run.literal
      ∧ (ofUnit m (.word parts) c).2.pending = []
      ∧ runsWidth parts ≤ (ofUnit m (.word parts) c).2.column := by
  rw [ofUnit_narrow htext (by omega), andThen_apply, List.flatMap_append, each_place_literal, each_place]
  exact ⟨rfl, (makeRoom_laysAt m (runsWidth parts) c).1.2, Nat.le_add_left _ _⟩

/-- At the end of a line nothing is put down that did not wait. -/
theorem flushPending_literal (m : Measure) (c : Cursor) :
    ∀ d ∈ (flushPending m c).1.flatMap Placed.literal, d ∈ c.pending.flatMap Run.literal := by
  have hall : ∀ (rs : List Run) (c : Cursor),
      ∀ d ∈ (each (placeTrailing m) rs c).1.flatMap Placed.literal, d ∈ rs.flatMap Run.literal := by
    intro rs
    induction rs with
    | nil => exact fun _ _ hd => hd
    | cons r rs ih =>
      intro c d hd
      rw [each_cons, List.flatMap_append] at hd
      rw [List.flatMap_cons]
      rcases List.mem_append.mp hd with hd | hd
      · refine List.mem_append_left _ ?_
        cases r with
        | style codes active => exact nomatch hd
        | text t =>
          have hd : d ∈ fitting m c.column t ++ [] := hd
          rw [List.append_nil] at hd
          exact (fitting_start m c.column t).subset hd
      · exact List.mem_append_right _ (ih _ d hd)
  exact hall c.pending { c with pending := [] }

end Step

/-! ## §4. Words of a layout. -/

/-- What is put down for units and for the end of the text after them, codes left aside. -/
def unitsText (m : Measure) (units : List LayoutUnit) (c : Cursor) : Text :=
  (Step.andThen (Step.each (Step.ofUnit m) units)
    (Step.andThen (Step.flushPending m) (Step.endLine .stop)) c).1.flatMap Placed.literal

theorem unitsText_cons (m : Measure) (u : LayoutUnit) (units : List LayoutUnit) (c : Cursor) :
    unitsText m (u :: units) c
      = (Step.ofUnit m u c).1.flatMap Placed.literal
        ++ unitsText m units (Step.ofUnit m u c).2 := by
  unfold unitsText
  rw [← List.flatMap_append]
  exact congrArg _ (List.append_assoc _ _ _)

theorem unitsText_nil (m : Measure) (c : Cursor) :
    unitsText m [] c = (Step.flushPending m c).1.flatMap Placed.literal := by
  show ((Step.flushPending m c).1 ++ [Placed.stop _]).flatMap Placed.literal = _
  rw [List.flatMap_append]
  exact List.append_nil _

theorem unitsText_newline (m : Measure) (units : List LayoutUnit) (c : Cursor) :
    unitsText m (.newline :: units) c
      = (Step.flushPending m c).1.flatMap Placed.literal
        ++ '\n' :: unitsText m units (Step.ofUnit m .newline c).2 := by
  have hend : (Step.ofUnit m .newline c).1.flatMap Placed.literal
      = (Step.flushPending m c).1.flatMap Placed.literal ++ ['\n'] :=
    List.flatMap_append
  rw [unitsText_cons, hend, List.append_assoc, List.singleton_append]

/-- What is put down for units has their words, and a word without columns may be joined to the next
one.  It begins with ink only in column zero, or if a word is put down at once. -/
structure Separates (m : Measure) (units : List LayoutUnit) (c : Cursor) : Prop where
  joined : Text.Joined ((units.flatMap LayoutUnit.words).map List.flatten)
    (Text.words (unitsText m units c))
  begins : (unitsText m units c).BeginsInk → c.column = 0
    ∨ (c.pending.flatMap Run.literal = [] ∧ ∃ parts, units.head? = some (.word parts))

section

variable {m : Measure} {c : Cursor} {rest : List LayoutUnit}

/-- At the end of the text only blanks are put down. -/
theorem separates_nil (hpending : ∀ d ∈ c.pending.flatMap Run.literal, isBlank d = true) :
    Separates m [] c := by
  have hblank : ∀ d ∈ unitsText m [] c, isBlank d = true := by
    rw [unitsText_nil]
    exact fun d hd => hpending d (Step.flushPending_literal m c d hd)
  constructor
  · rw [Text.words_of_blanks hblank]
    exact .nil
  · rintro ⟨d, hd, hink⟩
    exact absurd (hblank d (List.mem_of_mem_head? hd)) (by simp [hink])

/-- Blanks and a newline are put down, and the rest in column zero. -/
theorem separates_newline (hpending : ∀ d ∈ c.pending.flatMap Run.literal, isBlank d = true)
    (h : Separates m rest (Step.ofUnit m .newline c).2) : Separates m (.newline :: rest) c := by
  have hblank : ∀ d ∈ (Step.flushPending m c).1.flatMap Placed.literal ++ ['\n'],
      isBlank d = true := by
    refine List.forall_mem_append.mpr ⟨fun d hd => ?_, fun d hd => ?_⟩
    · exact hpending d (Step.flushPending_literal m c d hd)
    · exact List.mem_singleton.mp hd ▸ isBlank_newline
  have htext : unitsText m (.newline :: rest) c
      = (Step.flushPending m c).1.flatMap Placed.literal ++ ['\n']
        ++ unitsText m rest (Step.ofUnit m .newline c).2 := by
    rw [unitsText_newline, List.append_assoc]
    rfl
  constructor
  · rw [htext, Text.words_blanks hblank]
    exact h.joined
  · rw [htext]
    exact fun hbegins => absurd (hbegins.of_blanks hblank) (by simp)

/-- Blanks wait, and then no word is put down at once. -/
theorem separates_blank {t : Text} (hne : t ≠ [])
    (h : Separates m rest ⟨c.column, c.pending ++ [.text t], c.active⟩) :
    Separates m (.blank t :: rest) c := by
  refine ⟨h.joined, fun hbegins => ?_⟩
  rcases h.begins hbegins with hzero | ⟨hnone, -⟩
  · exact .inl hzero
  · rw [List.flatMap_append, List.append_eq_nil_iff, List.flatMap_singleton] at hnone
    exact absurd hnone.2 hne

/-- A word without text waits, and there is no word behind it. -/
theorem separates_silent {parts : List Run} (htext : parts.any Run.isText = false)
    (hhead : ∀ parts', rest.head? ≠ some (.word parts'))
    (h : Separates m rest ⟨c.column, c.pending ++ parts, c.active⟩) :
    Separates m (.word parts :: rest) c := by
  constructor
  · rw [List.flatMap_cons, (word_silent htext).1, unitsText_cons, Step.ofUnit_silent htext]
    exact h.joined
  · rw [unitsText_cons, Step.ofUnit_silent htext]
    intro hbegins
    rcases h.begins hbegins with hzero | ⟨-, parts', hparts'⟩
    · exact .inl hzero
    · exact absurd hparts' (hhead parts')

/-- **A word with text is put down**, and what follows joins it only if it takes no columns. -/
theorem separates_word {parts : List Run} (htext : parts.any Run.isText = true)
    (hparts : ∀ t ∈ textsOf parts, t.IsInk) (hnarrow : (runsWidth parts : Int) ≤ m.threshold)
    (hhead : ∀ parts', rest.head? ≠ some (.word parts'))
    (hpending : ∀ d ∈ c.pending.flatMap Run.literal, isBlank d = true)
    (h : Separates m rest (Step.ofUnit m (.word parts) c).2) :
    Separates m (.word parts :: rest) c := by
  obtain ⟨hliteral, -, hcolumn⟩ := Step.ofUnit_word (c := c) htext hnarrow
  have hroom := Step.makeRoom_literal m (runsWidth parts) c
  have hblank : ∀ d ∈ (Step.makeRoom m (runsWidth parts) c).1.flatMap Placed.literal,
      isBlank d = true := by
    rcases hroom with hroom | hroom | ⟨hroom, -⟩ <;> rw [hroom]
    · exact hpending
    · exact fun d hd => List.mem_singleton.mp hd ▸ isBlank_newline
    · exact fun d hd => nomatch hd
  -- only in column zero does ink follow at once, and the word stands before that column
  have hwidth : (unitsText m rest (Step.ofUnit m (.word parts) c).2).BeginsInk →
      Text.width (parts.flatMap Run.literal) = 0 := by
    intro hbegins
    rcases h.begins hbegins with hzero | ⟨-, parts', hparts'⟩
    · rw [← runsWidth_eq]
      omega
    · exact absurd hparts' (hhead parts')
  constructor
  · rw [List.flatMap_cons, List.map_append, word_text htext, unitsText_cons, hliteral,
      List.append_assoc, Text.words_blanks hblank]
    exact joined_ink (word_isInk hparts htext) h.joined hwidth
  · rw [unitsText_cons, hliteral, List.append_assoc]
    intro hbegins
    have hnone := hbegins.of_blanks hblank
    rcases hroom with hroom | hroom | ⟨-, hzero⟩
    · exact .inr ⟨hroom.symm.trans hnone, parts, rfl⟩
    · exact nomatch hroom.symm.trans hnone
    · exact .inl hzero

end

/-- **The words of a layout** are the words of its units, apart from those that are joined. -/
theorem unitsText_separates {m : Measure} {units : List LayoutUnit}
    (hunits : LayoutUnit.Spread units)
    (hnarrow : ∀ w ∈ (units.flatMap LayoutUnit.words).map List.flatten,
      (Text.width w : Int) ≤ m.threshold)
    {c : Cursor} (hpending : ∀ d ∈ c.pending.flatMap Run.literal, isBlank d = true) :
    Separates m units c := by
  -- on the units, for any cursor: what one leaves waiting stands in front of the next word
  induction hunits generalizing c with
  | nil => exact separates_nil hpending
  | newline _ ih =>
    have hnone : (Step.ofUnit m .newline c).2.pending = [] := (Step.flushPending_laysAt c).2
    refine separates_newline hpending (ih hnarrow ?_)
    rw [hnone]
    exact fun d hd => nomatch hd
  | blank hne ht _ ih =>
    refine separates_blank hne (ih hnarrow ?_)
    rw [List.flatMap_append, List.flatMap_singleton]
    exact List.forall_mem_append.mpr ⟨hpending, ht⟩
  | @word parts rest hparts hhead _ ih =>
    rw [List.flatMap_cons, List.map_append] at hnarrow
    obtain ⟨hword, hlater⟩ := List.forall_mem_append.mp hnarrow
    cases htext : parts.any Run.isText with
    | false =>
      refine separates_silent htext hhead (ih hlater ?_)
      rw [List.flatMap_append, (word_silent htext).2, List.append_nil]
      exact hpending
    | true =>
      rw [word_text htext] at hword
      have hwidth : (runsWidth parts : Int) ≤ m.threshold := by
        rw [runsWidth_eq]
        exact hword _ List.mem_cons_self
      refine separates_word htext hparts hwidth hhead hpending (ih hlater ?_)
      rw [(Step.ofUnit_word htext hwidth).2.1]
      exact fun d hd => nomatch hd

/-! ## §5. Words of wrapped text. -/

/-- **Words of a text stay whole and apart.**  If no literal text of `t` holds the escape character
and no word is dense, wrapped `t` without codes has the words of the literal text of `t`, but a word
without columns may be joined to the next one.  If every word takes columns, the words are the
same. -/
theorem wrap_keeps_words {theme : Theme} {t wrapped : Text} {ts : List Token}
    (hts : t.tokens = .ok ts) (hplain : ∀ v, Token.literal v ∈ ts → Sgr.escape ∉ v) {width : Int}
    {threshold? : Option Int}
    (hnarrow : ∀ w ∈ Text.words (ts.flatMap Token.plain),
      (Text.width w : Int) ≤ threshold?.getD width)
    (h : Text.wrap theme t width threshold? = .ok wrapped) :
    Text.Joined (Text.words (ts.flatMap Token.plain)) (Text.words (Text.removeCodes wrapped))
      ∧ ((∀ w ∈ Text.words (ts.flatMap Token.plain), 0 < Text.width w) →
          Text.words (Text.removeCodes wrapped) = Text.words (ts.flatMap Token.plain)) := by
  obtain ⟨rs, -, hcompiled, rfl⟩ := wrap_eq_ok hts h
  have hspread : LayoutUnit.Spread (LayoutUnit.ofRuns [] rs) :=
    ofRuns_spread nil_isInk rs
  have hliteral : ((LayoutUnit.ofRuns [] rs).flatMap LayoutUnit.runs).flatMap Run.literal
      = ts.flatMap Token.plain := by
    have hitems := ofRuns_items [] rs
    unfold LayoutUnit.items at hitems
    rw [← ofTokens_literal hcompiled, ← flatMap_literal_items, hitems, List.nil_append,
      flatMap_literal_items]
  have hwords := words_units hspread
  rw [hliteral] at hwords
  rw [hwords] at hnarrow ⊢
  have hseparates : Separates ⟨width, threshold?.getD width⟩ (LayoutUnit.ofRuns [] rs)
      Cursor.start :=
    unitsText_separates hspread hnarrow fun d hd => nomatch hd
  -- without codes, the wrapped text is what the layout puts down
  have hcoded := layout_coded (ofTokens_coherent hcompiled empty_sound (tokens_codeFormed hts))
    ⟨width, threshold?.getD width⟩
  have hescape : Sgr.escape ∉ (placements ⟨width, threshold?.getD width⟩ rs).flatMap
      Placed.literal :=
    fun hmem => ofTokens_plain hcompiled hplain (mem_items_of_placed hmem (by decide))
  rw [hcoded.removeCodes_eq hescape]
  exact ⟨hseparates.joined, hseparates.joined.eq⟩

/-- A combining mark stands alone at the start of the text, and the word behind it just fits in the
line. -/
theorem wrap_keeps_words_joined :
    Text.wrap Theme.standard "\u0301 {bold}ab{/bold}c d  e".toList 3 none
        = .ok "\u0301\x1b[1mab\x1b[22mc\x1b[0m\nd\x1b[0m\ne".toList
      ∧ Text.Joined (Text.words "\u0301 abc d  e".toList)
        (Text.words (Text.removeCodes "\u0301\x1b[1mab\x1b[22mc\x1b[0m\nd\x1b[0m\ne".toList)) := by
  let ts : List Token :=
    [.literal "\u0301 ".toList, .tagOpen "{bold}".toList ["bold".toList], .literal "ab".toList,
     .tagClose "{/bold}".toList ["bold".toList], .literal "c d  e".toList]
  have hts : Text.tokens "\u0301 {bold}ab{/bold}c d  e".toList = .ok ts := by decide +kernel
  have hliteral : ∀ tok ∈ ts, Sgr.escape ∉ tok.plain := by decide
  have hplain : ∀ v, Token.literal v ∈ ts → Sgr.escape ∉ v := fun v hv => hliteral _ hv
  have hnarrow : ∀ w ∈ Text.words (ts.flatMap Token.plain),
      (Text.width w : Int) ≤ (none : Option Int).getD 3 := by
    decide +kernel
  have hwrap : Text.wrap Theme.standard "\u0301 {bold}ab{/bold}c d  e".toList 3 none
      = .ok "\u0301\x1b[1mab\x1b[22mc\x1b[0m\nd\x1b[0m\ne".toList := by
    decide +kernel
  exact ⟨hwrap, (wrap_keeps_words hts hplain hnarrow hwrap).1⟩

/-- The words of a text are not always those of wrapped text: the blank behind a word without
columns is dropped, and no newline stands for it. -/
theorem wrap_joins_words :
    Text.tokens "\u0301 abc".toList = .ok [.literal "\u0301 abc".toList]
      ∧ Sgr.escape ∉ "\u0301 abc".toList
      ∧ (∀ w ∈ Text.words "\u0301 abc".toList, (Text.width w : Int) ≤ 3)
      ∧ Text.wrap Theme.standard "\u0301 abc".toList 3 none = .ok "\u0301abc".toList
      ∧ Text.words "\u0301 abc".toList = ["\u0301".toList, "abc".toList]
      ∧ Text.words (Text.removeCodes "\u0301abc".toList) = ["\u0301abc".toList] := by
  decide +kernel

end TermMarkup
