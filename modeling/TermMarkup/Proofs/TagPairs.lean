/-
  TermMarkup.Proofs.TagPairs
  ──────────────────────────
  MATCHED PAIRS OF TAGS.  Whether a text holds markup is decided in one pass over
  its tags: the words of the opening tags are gathered, and the first closing tag
  that names one of them ends the pass.  A word that has been gathered has been
  opened by some tag before, so the pass looks for a pair of tags, an opening one
  and a closing one behind it, with a word in common.

    • `HoldsPair` — a pair of matching tags, by their places in a list,
    • `closesAny_iff` — what the pass finds, whatever it has gathered before,
    • `Headless.tags_eq_nil` — escaped text has no tags, whatever else is in it,
    • `hasMarkup_iff_pair` — a text holds markup exactly if its tags hold a pair.
-/
import TermMarkup.Proofs.Escaping

namespace TermMarkup

/-! ## §1. Pairs. -/

/-- The first tag opens, the second one closes, and some word stands in both. -/
structure Tag.Matches (opening closing : Tag) : Prop where
  opens : opening.closes = false
  closes : closing.closes = true
  shared : ∃ word, word ∈ Text.styleWords opening.body ∧ word ∈ Text.styleWords closing.body

/-- A tag in the list matches another one at a later place. -/
def HoldsPair (tags : List Tag) : Prop :=
  ∃ (i j : Nat) (opening closing : Tag), i < j ∧ tags[i]? = some opening
    ∧ tags[j]? = some closing ∧ opening.Matches closing

theorem not_holdsPair_nil : ¬HoldsPair [] := by
  intro h
  obtain ⟨i, j, opening, closing, -, hi, -⟩ := h
  simp at hi

/-- **A pair begins at the first tag or behind it.** -/
theorem holdsPair_cons_iff {tag : Tag} {rest : List Tag} :
    HoldsPair (tag :: rest) ↔ (∃ closing ∈ rest, tag.Matches closing) ∨ HoldsPair rest := by
  constructor
  · intro h
    obtain ⟨i, j, opening, closing, hij, hi, hj, hmatch⟩ := h
    -- the closing tag stands behind another one, so it is not the first
    obtain ⟨k, rfl⟩ : ∃ k, j = k + 1 := ⟨j - 1, by omega⟩
    rw [List.getElem?_cons_succ] at hj
    cases i with
    | zero =>
      rw [List.getElem?_cons_zero] at hi
      rw [Option.some.inj hi]
      exact .inl ⟨closing, List.mem_of_getElem? hj, hmatch⟩
    | succ i =>
      rw [List.getElem?_cons_succ] at hi
      exact .inr ⟨i, k, opening, closing, by omega, hi, hj, hmatch⟩
  · intro h
    rcases h with ⟨closing, hmem, hmatch⟩ | ⟨i, j, opening, closing, hij, hi, hj, hmatch⟩
    · obtain ⟨k, hk⟩ := List.getElem?_of_mem hmem
      exact ⟨0, k + 1, tag, closing, by omega, by simp, by simpa using hk, hmatch⟩
    · exact ⟨i + 1, j + 1, opening, closing, by omega, by simpa using hi, by simpa using hj, hmatch⟩

/-! ## §2. The pass over the tags. -/

namespace Text

/-- Some tag closes a word of `opened`. -/
def ClosesOf (opened : List Text) (tags : List Tag) : Prop :=
  ∃ closing ∈ tags, closing.closes = true ∧ ∃ word ∈ styleWords closing.body, word ∈ opened

/-- Words are gathered behind those that are there. -/
theorem closesOf_append {opened more : List Text} {tags : List Tag} :
    ClosesOf (opened ++ more) tags ↔ ClosesOf opened tags ∨ ClosesOf more tags := by
  constructor
  · intro h
    obtain ⟨closing, hmem, hcloses, word, hword, hopened⟩ := h
    rcases List.mem_append.mp hopened with hopened | hmore
    · exact .inl ⟨closing, hmem, hcloses, word, hword, hopened⟩
    · exact .inr ⟨closing, hmem, hcloses, word, hword, hmore⟩
  · intro h
    rcases h with ⟨closing, hmem, hcloses, word, hword, hopened⟩ |
      ⟨closing, hmem, hcloses, word, hword, hmore⟩
    · exact ⟨closing, hmem, hcloses, word, hword, List.mem_append_left _ hopened⟩
    · exact ⟨closing, hmem, hcloses, word, hword, List.mem_append_right _ hmore⟩

/-- A closing tag in front closes a word itself, or a later one does. -/
theorem closesOf_cons_closing {opened : List Text} {tag : Tag} (hcloses : tag.closes = true)
    (rest : List Tag) :
    ClosesOf opened (tag :: rest)
      ↔ (styleWords tag.body).any opened.contains = true ∨ ClosesOf opened rest := by
  simp only [ClosesOf, List.mem_cons, exists_eq_or_imp, hcloses, true_and, List.any_eq_true,
    List.contains_iff_mem]

/-- An opening tag in front closes nothing. -/
theorem closesOf_cons_opening {opened : List Text} {tag : Tag} (hopens : tag.closes = false)
    (rest : List Tag) : ClosesOf opened (tag :: rest) ↔ ClosesOf opened rest := by
  simp [ClosesOf, hopens]

/-- A later tag closes a word of an opening tag exactly if the two match. -/
theorem closesOf_words_iff {tag : Tag} (hopens : tag.closes = false) {rest : List Tag} :
    ClosesOf (styleWords tag.body) rest ↔ ∃ closing ∈ rest, tag.Matches closing := by
  constructor
  · intro h
    obtain ⟨closing, hmem, hcloses, word, hword, hopened⟩ := h
    exact ⟨closing, hmem, hopens, hcloses, word, hopened, hword⟩
  · intro h
    obtain ⟨closing, hmem, hmatch⟩ := h
    obtain ⟨word, hopened, hword⟩ := hmatch.shared
    exact ⟨closing, hmem, hmatch.closes, word, hword, hopened⟩

/-- A closing tag begins no pair. -/
theorem not_matches_of_closes {tag closing : Tag} (hcloses : tag.closes = true) :
    ¬tag.Matches closing := by
  intro h
  simp [h.opens] at hcloses

/-- **What the pass finds**: a tag that closes a word gathered before, or a pair. -/
theorem closesAny_iff (opened : List Text) (tags : List Tag) :
    closesAny opened tags = true ↔ ClosesOf opened tags ∨ HoldsPair tags := by
  -- on the tags, for any words gathered before: an opening tag hands its own words on
  induction tags generalizing opened with
  | nil =>
    have hnone : ¬ClosesOf opened [] := by simp [ClosesOf]
    simp [closesAny, hnone, not_holdsPair_nil]
  | cons tag rest ih =>
    rw [closesAny, holdsPair_cons_iff]
    by_cases hcloses : tag.closes = true
    · have hfirst : ¬∃ closing ∈ rest, tag.Matches closing := by
        intro h
        obtain ⟨closing, -, hmatch⟩ := h
        exact not_matches_of_closes hcloses hmatch
      simp only [hcloses, if_true, Bool.or_eq_true, ih, closesOf_cons_closing, hfirst, false_or,
        or_assoc]
    · have hopens : tag.closes = false := by simpa using hcloses
      simp only [hopens, Bool.false_eq_true, if_false, ih, closesOf_append,
        closesOf_cons_opening hopens, closesOf_words_iff hopens, or_assoc]

/-! ## §3. Texts. -/

/-- **A text in which no head begins has no tags.** -/
theorem Headless.scan_tag?_eq {b : Bool} {u : Text} (hu : Headless b u) :
    scan Mark.tag? b u = u.map .plain := by
  induction u generalizing b with
  | nil =>
    rw [scan]
    rfl
  | cons c u ih =>
    have hread := hu.1 []
    rw [List.append_nil] at hread
    have hnone : Mark.tag? b (c :: u) = none := by
      unfold Mark.tag?
      rw [hread]
    rw [scan_plain hnone, ih hu.2]
    rfl

theorem Headless.tags_eq_nil {u : Text} (hu : Headless false u) : u.tags = [] := by
  unfold tags pieces
  rw [hu.scan_tag?_eq, Unmarked.tagsFrom_plain]

/-- **A text holds markup exactly if two of its tags are a pair**: an opening tag and, at a later
place among the tags, a closing one, with a word in common.  Escaped text never does. -/
theorem hasMarkup_iff_pair (t : Text) :
    (t.hasMarkup = true ↔ ∃ (i j : Nat) (opening closing : Tag), i < j
        ∧ t.tags[i]? = some opening ∧ t.tags[j]? = some closing ∧ opening.Matches closing)
      ∧ (escapeBraces t).hasMarkup = false := by
  have hnone : ∀ tags, ¬ClosesOf [] tags := by simp [ClosesOf]
  have hpass : ∀ u : Text, u.hasMarkup = true ↔ HoldsPair u.tags := by
    intro u
    unfold hasMarkup
    simp [closesAny_iff, hnone]
  refine ⟨hpass t, ?_⟩
  have hescaped : (escapeBraces t).tags = [] := (headless_escapeBraces false t).tags_eq_nil
  rw [← Bool.not_eq_true, hpass, hescaped]
  exact not_holdsPair_nil

/-- A pair of which the closing tag names one of three words, a triple written with other blanks;
no pair if the tags stand the other way round. -/
example :
    hasMarkup "{bold (1, 2,3) red}x{/blue ( 1,2 ,3)}".toList = true
      ∧ hasMarkup "{/red}x{red}".toList = false := by
  decide +kernel

end Text

end TermMarkup
