/-
  TermMarkup.Proofs.StyleWords
  ────────────────────────────
  THE STYLE WORDS OF A TEXT.  Before a text is cut into style words, the blanks
  around its commas and just inside its brackets go, so that a color triple is one
  word however it is spaced.  Where such blanks are, the words at them begin or end
  in a comma, end in an opening bracket or begin with a closing one.  If no word
  does, the text has no such blanks, and its style words are its words.

    • `closeUpBefore_eq_self`, `closeUpAfter_eq_self` — texts with no blanks to drop,
    • `Snug`, `styleWords_of_snug` — the same, by the neighbours of each character,
    • `Text.StandsAlone` — a word with no such end,
    • `styleWords_eq_words` — a text of such words.
-/
import TermMarkup.Proofs.Fields
import TermMarkup.Tag
import Mathlib.Data.List.Chain
import Mathlib.Data.List.TakeWhile

namespace TermMarkup.Text

/-! ## §1. Closing up. -/

variable {p : Char → Bool} {t : Text}

/-- A text in which no blank stands directly before a marked character stays as it is. -/
theorem closeUpBefore_eq_self (h : t.IsChain fun b c => isBlank b = true → p c = false) :
    closeUpBefore p t = t := by
  induction t with
  | nil => rfl
  | cons b t ih =>
    obtain ⟨hnext, ht⟩ := List.isChain_cons.mp h
    rw [closeUpBefore, ih ht]
    cases t with
    | nil => rfl
    | cons c t =>
      have hno : (isBlank b && p c) = false := by
        cases hb : isBlank b with
        | false => rfl
        | true => exact hnext c rfl hb
      dsimp only
      rw [if_neg (by simp [hno])]

/-- A text in which no blank stands directly after a marked character stays as it is. -/
theorem closeUpAfter_eq_self (h : t.IsChain fun b c => isBlank c = true → p b = false) :
    closeUpAfter p t = t := by
  -- reversed, the blank stands before the marked character
  unfold closeUpAfter
  rw [closeUpBefore_eq_self (List.isChain_reverse.mpr h), List.reverse_reverse]

/-! ## §2. Words. -/

/-- Trimming leaves the words as they are. -/
theorem words_trim (t : Text) : words (trim t) = words t := by
  have hblank : ∀ u : Text, ∀ c ∈ u.takeWhile isBlank, isBlank c = true :=
    fun u c hc => List.mem_takeWhile_imp hc
  have hfront : words (t.dropWhile isBlank) = words t := by
    have h := words_blanks (hblank t) (t.dropWhile isBlank)
    rw [List.takeWhile_append_dropWhile] at h
    exact h.symm
  -- what goes at the end is one blank with blanks behind it, or nothing
  have hback : ∀ u : Text, words (trimEndBy isBlank u) = words u := by
    intro u
    have hcut : trimEndBy isBlank u ++ (u.reverse.takeWhile isBlank).reverse = u := by
      unfold trimEndBy
      rw [← List.reverse_append, List.takeWhile_append_dropWhile, List.reverse_reverse]
    have hend : ∀ c ∈ (u.reverse.takeWhile isBlank).reverse, isBlank c = true :=
      fun c hc => hblank u.reverse c (List.mem_reverse.mp hc)
    rw [← congrArg words hcut]
    cases hrest : (u.reverse.takeWhile isBlank).reverse with
    | nil => rw [List.append_nil]
    | cons c rest =>
      rw [hrest] at hend
      rw [words_append_blank (hend c List.mem_cons_self),
        words_of_blanks fun d hd => hend d (List.mem_cons_of_mem _ hd), List.append_nil]
  unfold trim
  rw [hback, hfront]

/-- Trimming leaves a stretch of the text. -/
theorem isInfix_trim (t : Text) : (trim t).IsInfix t := by
  have hend : ∀ u : Text, (trimEndBy isBlank u).IsInfix u := by
    intro u
    have h := List.reverse_infix.mpr (List.dropWhile_suffix isBlank (l := u.reverse)).isInfix
    rwa [List.reverse_reverse] at h
  exact (hend _).trans (List.dropWhile_suffix isBlank).isInfix

/-- Two neighbours with nothing to close up: no blank beside a comma, behind an opening bracket or
in front of a closing one. -/
def Snug (b c : Char) : Prop :=
  (isBlank c = true → b ≠ ',' ∧ b ≠ '(') ∧ (isBlank b = true → c ≠ ',' ∧ c ≠ ')')

/-- **A text in which all neighbours are snug** has its words as style words. -/
theorem styleWords_of_snug (h : t.IsChain Snug) : styleWords t = words t := by
  have htrim := h.infix (isInfix_trim t)
  have hcommas : closeUpCommas (trim t) = trim t := by
    unfold closeUpCommas
    rw [closeUpAfter_eq_self (htrim.imp fun b c hsnug hc => by simpa using (hsnug.1 hc).1)]
    exact closeUpBefore_eq_self (htrim.imp fun b c hsnug hb => by simpa using (hsnug.2 hb).1)
  have hparens : closeUpParens (trim t) = trim t := by
    unfold closeUpParens
    rw [closeUpAfter_eq_self (htrim.imp fun b c hsnug hc => by simpa using (hsnug.1 hc).2)]
    exact closeUpBefore_eq_self (htrim.imp fun b c hsnug hb => by simpa using (hsnug.2 hb).2)
  unfold styleWords
  rw [hcommas, hparens, words_trim]

/-- The word has no comma at either end, opens no bracket at its end and closes none at its
beginning. -/
def StandsAlone (w : Text) : Prop :=
  (∀ c ∈ w.head?, c ≠ ',' ∧ c ≠ ')') ∧ ∀ c ∈ w.getLast?, c ≠ ',' ∧ c ≠ '('

instance (w : Text) : Decidable w.StandsAlone :=
  decidable_of_iff
    ((w.head?.all fun c => c ≠ ',' ∧ c ≠ ')') && w.getLast?.all fun c => c ≠ ',' ∧ c ≠ '(')
    (by simp [StandsAlone, Option.all_eq_true])

/-- A character of a class without commas and brackets is none. -/
theorem plain_of_class {p : Char → Bool} (hp : p ',' = false ∧ p '(' = false ∧ p ')' = false)
    {c : Char} (hc : p c = true) : c ≠ ',' ∧ c ≠ '(' ∧ c ≠ ')' := by
  refine ⟨?_, ?_, ?_⟩ <;> rintro rfl
  · exact nomatch hp.1.symm.trans hc
  · exact nomatch hp.2.1.symm.trans hc
  · exact nomatch hp.2.2.symm.trans hc

/-- A text without commas and brackets stands alone. -/
theorem StandsAlone.of_plain {w : Text} (h : ∀ c ∈ w, c ≠ ',' ∧ c ≠ '(' ∧ c ≠ ')') :
    w.StandsAlone :=
  ⟨fun c hc => ⟨(h c (List.mem_of_mem_head? hc)).1, (h c (List.mem_of_mem_head? hc)).2.2⟩,
    fun c hc => ⟨(h c (List.mem_of_getLast? hc)).1, (h c (List.mem_of_getLast? hc)).2.1⟩⟩

variable (h : ∀ w ∈ words t, w.StandsAlone)
include h

/-- In a text of words that stand alone, what follows a blank begins no other way. -/
theorem StandsAlone.behind_blank {a rest : Text} {b c : Char} (ht : t = a ++ b :: c :: rest)
    (hb : isBlank b = true) : c ≠ ',' ∧ c ≠ ')' := by
  cases hc : isBlank c with
  | true =>
    constructor <;> rintro rfl <;> exact absurd hc (by decide)
  | false =>
    obtain ⟨w, hw, hhead⟩ := exists_field_head hc rest
    have hne : w ≠ [] := by
      rintro rfl
      exact nomatch hhead
    have hword : w ∈ words t := by
      rw [ht, words_append_blank hb]
      exact List.mem_append_right _ (List.mem_filter.mpr ⟨hw, by simpa using hne⟩)
    exact (h w hword).1 c hhead

/-- In a text of words that stand alone, what a blank follows ends no other way. -/
theorem StandsAlone.before_blank {a rest : Text} {b c : Char} (ht : t = a ++ c :: b :: rest)
    (hb : isBlank b = true) : c ≠ ',' ∧ c ≠ '(' := by
  cases hc : isBlank c with
  | true =>
    constructor <;> rintro rfl <;> exact absurd hc (by decide)
  | false =>
    obtain ⟨w, hw, hlast⟩ := exists_field_last hc a
    have hne : w ≠ [] := by
      rintro rfl
      exact nomatch hlast
    have hword : w ∈ words t := by
      have hsplit : t = (a ++ [c]) ++ b :: rest := by simp [ht]
      rw [hsplit, words_append_blank hb]
      exact List.mem_append_left _ (List.mem_filter.mpr ⟨hw, by simpa using hne⟩)
    exact (h w hword).2 c hlast

/-- In a text of words that stand alone, all neighbours are snug. -/
theorem StandsAlone.snug : t.IsChain Snug :=
  List.isChain_iff_forall_rel_of_append_cons_cons.mpr fun _ _ _ _ ht =>
    ⟨fun hc => StandsAlone.before_blank h ht hc, fun hb => StandsAlone.behind_blank h ht hb⟩

/-- **The style words of a text are its words** if each of these stands alone. -/
theorem styleWords_eq_words : styleWords t = words t := styleWords_of_snug (StandsAlone.snug h)

end TermMarkup.Text
