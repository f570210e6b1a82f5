/-
  TermMarkup.Proofs.WideLines
  ───────────────────────────
  LINES THAT ARE TOO WIDE.  A line is the text of a row with codes put in.  The
  row is as narrow as it should be, or one atom alone makes it wider.  What is
  visible of the line is in the row, but it need not be all of it: a tag that
  goes out of the text may leave another one behind where it stood, and so may a
  code.  Such a tag is laid out like any text, and is no text when the line is
  measured.

    • `visible_eq_iff` — when all of a row is visible,
    • `Row.StandsAs`, `Row.Within` — a line of a row, and its width,
    • `wrap_within_width` — a line is too wide only for the sake of one atom,
    • `wrap_within_width_joined` — an atom that is not visible as a whole.
-/
import TermMarkup.Proofs.VisibleText

namespace TermMarkup

/-! ## §1. What is visible of a line. -/

/-- Stripping takes an opening brace for each tag. -/
theorem count_brace_stripTags (t : Text) :
    (Text.stripTags t).count '{' + t.tags.length ≤ t.count '{' := by
  have hdropped := count_brace_dropTags t
  have hstripped : (Text.stripTags t).Sublist (dropMarks Mark.tag? t) :=
    clearMarks_sublist Mark.tag? t
  have hcount := hstripped.count_le '{'
  omega

/-- A text without tags is stripped of nothing. -/
theorem stripTags_eq_self {t : Text} (h : t.tags = []) : Text.stripTags t = t := by
  unfold Text.stripTags
  rw [clearMarks_eq, dropTags_of_tags_eq_nil h, if_neg (Nat.lt_irrefl _)]

/-- **All of a text is visible under the codes put into it** exactly if no tag is in the coded text
and no code in the text itself. -/
theorem visible_eq_iff {u t : Text} (h : Text.Coded u t) :
    Text.removeCodes (Text.stripTags t) = u ↔ t.tags = [] ∧ Text.removeCodes u = u := by
  have hcodes := h.removeCodes_congr
  constructor
  · intro hall
    -- the visible text holds every opening brace, and a tag would have taken one
    have hbraces := congrArg (List.count '{') hall
    rw [count_brace_removeCodes, ← h.count_brace] at hbraces
    have htaken := count_brace_stripTags t
    have htags : t.tags = [] := List.length_eq_zero_iff.mp (by omega)
    rw [stripTags_eq_self htags, hcodes] at hall
    exact ⟨htags, hall⟩
  · rintro ⟨htags, hself⟩
    rw [stripTags_eq_self htags, hcodes, hself]

/-! ## §2. Lines of rows. -/

/-- The line is the text of the row with codes put in: the atoms with blanks between them, none of
them parted.  What is visible of the line is in that text, and it is all of it exactly if the line
holds no tag and the text no code. -/
structure Row.StandsAs (row : Row) (line : Text) : Prop where
  coded : row.text.Coded line
  ink : row.text.ink = row.atoms.flatten
  whole : ∀ atom ∈ row.atoms, atom <:+: row.text
  visible : (Text.removeCodes (Text.stripTags line)).Sublist row.text
  visible_eq : Text.removeCodes (Text.stripTags line) = row.text
    ↔ line.tags = [] ∧ Text.removeCodes row.text = row.text

/-- The line is no wider than `max width 0`, or exactly one atom of the row takes columns, the row
is as wide as that atom and the line no wider. -/
def Row.Within (width : Int) (row : Row) (line : Text) : Prop :=
  (Text.visibleWidth line : Int) ≤ max width 0
    ∨ ∃ atom, (row.atoms.filter fun a => 0 < Text.width a) = [atom]
      ∧ Text.width row.text = Text.width atom ∧ Text.visibleWidth line ≤ Text.width atom

variable {width : Int} {row : Row} {line : Text}

theorem Row.Good.standsAs (hrow : row.Good width) (hline : row.text.Coded line) :
    row.StandsAs line :=
  ⟨hline, hrow.ink, hrow.whole, hline.visible_sublist, visible_eq_iff hline⟩

theorem Row.Good.within (hrow : row.Good width) (hline : row.text.Coded line) :
    row.Within width line := by
  have hle := visibleWidth_le hline
  rcases hrow.bounded with hnarrow | ⟨atom, hone, hwidth⟩
  · left
    omega
  · exact .inr ⟨atom, hone, hwidth, by omega⟩

/-! ## §3. Wrapped text. -/

/-- **A line is too wide only for the sake of one atom.**  The lines of wrapped text are those of
rows that hold consecutive blocks of its atoms, each within the width or made wider by one atom.  If
words are dense beyond `width` and no cluster of a literal run is wider, no line is too wide. -/
theorem wrap_within_width {theme : Theme} {t wrapped : Text} {ts : List Token}
    (hts : t.tokens = .ok ts) {width : Int} {threshold? : Option Int}
    (h : Text.wrap theme t width threshold? = .ok wrapped) :
    (∃ rows : List Row, rows.flatMap Row.atoms = Token.atoms (threshold?.getD width) ts
      ∧ List.Forall₂ (fun line row => row.StandsAs line ∧ row.Within width line)
          (Text.lines wrapped) rows)
    ∧ (threshold? = none →
        (∀ word ∈ Token.words ts, ∀ run ∈ word, ∀ cluster ∈ Text.clusters run,
          (Text.width cluster : Int) ≤ width) →
        ∀ line ∈ Text.lines wrapped, (Text.visibleWidth line : Int) ≤ max width 0) := by
  obtain ⟨u, rows, hcoded, hlines, hatoms, hgood, -⟩ := wrap_rows hts h
  have hpairs := hcoded.lines
  rw [hlines, List.forall₂_map_left_iff] at hpairs
  have hpairs := (List.forall₂_and_left _ _).mpr ⟨hgood, hpairs⟩
  refine ⟨⟨rows, hatoms, ?_⟩, ?_⟩
  · exact List.Forall₂.flip (hpairs.imp fun row line hline =>
      ⟨hline.1.standsAs hline.2, hline.1.within hline.2⟩)
  · -- then no atom is wider than the line, so the one exception is none
    rintro rfl hclusters line hline
    obtain ⟨row, hrow, hgood, hcoded⟩ := exists_of_forall₂ hpairs hline
    have hnarrow := row_narrow hgood fun atom hatom =>
      width_atom_le_threshold hclusters atom (hatoms ▸ List.mem_flatMap.mpr ⟨row, hrow, hatom⟩)
    have hle := visibleWidth_le hcoded
    omega

/-- A dense word of wide characters at an odd width: no line is too wide. -/
theorem wrap_within_width_dense :
    ∃ ts wrapped, Text.tokens "a{bold}b 世界c{/bold} d".toList = .ok ts
      ∧ Text.wrap Theme.standard "a{bold}b 世界c{/bold} d".toList 3 none = .ok wrapped
      ∧ (∃ rows : List Row, rows.flatMap Row.atoms = [['a', 'b'], ['世'], ['界'], ['c'], ['d']]
        ∧ List.Forall₂ (fun line row => row.StandsAs line ∧ row.Within 3 line)
            (Text.lines wrapped) rows)
      ∧ ∀ line ∈ Text.lines wrapped, (Text.visibleWidth line : Int) ≤ max 3 0 := by
  let ts : List Token :=
    [.literal "a".toList, .tagOpen "{bold}".toList ["bold".toList], .literal "b 世界c".toList,
     .tagClose "{/bold}".toList ["bold".toList], .literal " d".toList]
  have hts : Text.tokens "a{bold}b 世界c{/bold} d".toList = .ok ts := by decide +kernel
  have hatoms : Token.atoms 3 ts = [['a', 'b'], ['世'], ['界'], ['c'], ['d']] := by
    decide +kernel
  have hclusters : ∀ word ∈ Token.words ts, ∀ run ∈ word, ∀ cluster ∈ Text.clusters run,
      (Text.width cluster : Int) ≤ 3 := by
    decide +kernel
  have hwrap : ∃ wrapped, Text.wrap Theme.standard "a{bold}b 世界c{/bold} d".toList 3 none
      = .ok wrapped :=
    ⟨"a\x1b[1mb\x1b[22m\x1b[0m\n\x1b[1m世\x1b[22m\x1b[0m\n".toList
      ++ "\x1b[1m界c\x1b[22m\x1b[0m\nd".toList, by decide +kernel⟩
  obtain ⟨wrapped, hwrap⟩ := hwrap
  obtain ⟨hrows, hnarrow⟩ := wrap_within_width hts hwrap
  exact ⟨ts, wrapped, hts, hwrap, hatoms ▸ hrows, hnarrow rfl hclusters⟩

/-- **The atom that makes a line too wide need not be visible as a whole.**  A close that goes out
of the text joins what stood around it to a tag; the word is laid out with this tag, and the line is
measured without it. -/
theorem wrap_within_width_joined :
    ∃ ts, Text.tokens "\x7b/{/red}bold\x7dxxxxx".toList = .ok ts
      ∧ Token.atoms 100 ts = ["{/bold}xxxxx".toList]
      ∧ Text.wrap Theme.standard "\x7b/{/red}bold\x7dxxxxx".toList 3 (some 100)
          = .ok "{/bold}xxxxx".toList
      ∧ Text.lines "{/bold}xxxxx".toList = ["{/bold}xxxxx".toList]
      ∧ max 3 0 < Text.visibleWidth "{/bold}xxxxx".toList
      ∧ Text.removeCodes (Text.stripTags "{/bold}xxxxx".toList) = "xxxxx".toList
      ∧ ¬"{/bold}xxxxx".toList <:+: "xxxxx".toList :=
  ⟨[.literal ['\x7b', '/'], .tagClose "{/red}".toList ["red".toList],
      .literal "bold\x7dxxxxx".toList],
    by decide +kernel⟩

end TermMarkup
