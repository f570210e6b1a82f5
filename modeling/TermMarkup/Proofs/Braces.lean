/-
  TermMarkup.Proofs.Braces
  ────────────────────────
  DOUBLED BRACES.  Escaping writes every brace twice, each for itself, so it
  goes through joins, lines and words.  Taking pairs together from the left
  undoes it, and of ANY text it leaves at least half of the braces: written out
  again they are no fewer than before, and just as many exactly in an escaped
  text, where every run of braces is even.

    • `unescapeBraces_escapeBraces` — escaping can be undone,
    • `fieldsBy_escapeBraces` — lines and words of an escaped text,
    • `sublist_escapeBraces` — no text loses braces by taking pairs together,
    • `escaped_iff_unescaped_ink` — escaped texts among those with the same ink,
    • `escaped_iff_lines` — a text is escaped if its lines are.
-/
import TermMarkup.Proofs.Rows
import TermMarkup.Text.Brace
import Mathlib.Data.List.Flatten

namespace TermMarkup.Text

/-! ## §1. Escaping. -/

/-- A character as it is written in an escaped text. -/
def escapedChar (c : Char) : Text := if c = '{' ∨ c = '}' then [c, c] else [c]

/-- Doubling two characters, one after the other, doubles each for itself. -/
theorem doubleEach_doubleEach {c d : Char} (h : c ≠ d) (t : Text) :
    doubleEach c (doubleEach d t) = t.flatMap fun a => if a = c ∨ a = d then [a, a] else [a] := by
  unfold doubleEach
  rw [List.flatMap_assoc]
  refine List.flatMap_congr fun a _ => ?_
  by_cases hc : a = c
  · simp [hc, h]
  · by_cases hd : a = d
    · simp [hd, Ne.symm h]
    · simp [hc, hd]

/-- **Escaping writes each character for itself.** -/
theorem escapeBraces_eq (t : Text) : escapeBraces t = t.flatMap escapedChar := by
  unfold escapeBraces
  rw [doubleEach_doubleEach (by decide)]
  exact List.flatMap_congr fun c _ => if_congr or_comm rfl rfl

theorem escapeBraces_cons (c : Char) (t : Text) :
    escapeBraces (c :: t) = escapedChar c ++ escapeBraces t := by
  rw [escapeBraces_eq, escapeBraces_eq, List.flatMap_cons]

theorem escapeBraces_append (s t : Text) :
    escapeBraces (s ++ t) = escapeBraces s ++ escapeBraces t := by
  rw [escapeBraces_eq, escapeBraces_eq, escapeBraces_eq, List.flatMap_append]

theorem escapedChar_of_ne {c : Char} (hopen : c ≠ '{') (hclose : c ≠ '}') : escapedChar c = [c] :=
  if_neg (not_or.mpr ⟨hopen, hclose⟩)

theorem escapedChar_of_blank {c : Char} (h : isBlank c = true) : escapedChar c = [c] := by
  refine escapedChar_of_ne ?_ ?_ <;>
  · rintro rfl
    exact absurd h (by decide)

/-- A text without braces is its own escaped form. -/
theorem escapeBraces_of_no_brace {t : Text} (hopen : '{' ∉ t) (hclose : '}' ∉ t) :
    escapeBraces t = t := by
  rw [escapeBraces_eq]
  refine Eq.trans (List.flatMap_congr fun c hc => ?_) (List.flatMap_singleton' t)
  refine escapedChar_of_ne ?_ ?_
  · rintro rfl
    exact hopen hc
  · rintro rfl
    exact hclose hc

theorem eq_of_mem_escapedChar {c d : Char} (h : d ∈ escapedChar c) : d = c := by
  unfold escapedChar at h
  split at h <;> simpa using h

/-- Escaping brings no character in. -/
theorem mem_of_mem_escapeBraces {t : Text} {c : Char} (h : c ∈ escapeBraces t) : c ∈ t := by
  rw [escapeBraces_eq] at h
  obtain ⟨d, hd, h⟩ := List.mem_flatMap.mp h
  exact eq_of_mem_escapedChar h ▸ hd

/-- The ink of an escaped text is the escaped ink. -/
theorem ink_escapeBraces (t : Text) : ink (escapeBraces t) = escapeBraces (ink t) := by
  induction t with
  | nil => rfl
  | cons c t ih =>
    rw [escapeBraces_cons, ink_append, ih]
    cases hc : isBlank c with
    | true =>
      have hgone : ∀ u, ink (c :: u) = ink u := fun u => List.filter_cons_of_neg (by simp [hc])
      rw [hgone, escapedChar_of_blank hc, hgone]
      rfl
    | false =>
      have hkept : ink (c :: t) = c :: ink t := List.filter_cons_of_pos (by simp [hc])
      rw [hkept, escapeBraces_cons, ink_eq_self fun d hd => eq_of_mem_escapedChar hd ▸ hc]

/-- **Fields of an escaped text** are the escaped fields, as no brace separates fields. -/
theorem fieldsBy_escapeBraces {p : Char → Bool} (hopen : p '{' = false) (hclose : p '}' = false)
    (t : Text) : fieldsBy p (escapeBraces t) = (fieldsBy p t).map escapeBraces := by
  induction t with
  | nil => rfl
  | cons c t ih =>
    rw [escapeBraces_cons]
    obtain ⟨first, rest, ht⟩ := List.exists_cons_of_ne_nil (fieldsBy_ne_nil p t)
    rw [ht, List.map_cons] at ih
    cases hc : p c with
    | true =>
      have hplain : escapedChar c = [c] := by
        refine escapedChar_of_ne ?_ ?_ <;>
        · rintro rfl
          simp_all
      rw [hplain, fieldsBy, if_pos hc, ht]
      show fieldsBy p ([] ++ c :: escapeBraces t) = _
      rw [fieldsBy_append_cons (a := []) (fun _ h => absurd h List.not_mem_nil) hc, ih]
      rfl
    | false =>
      -- the character joins the first field, in both texts
      have hnone : ∀ d ∈ escapedChar c, p d = false := fun d hd => eq_of_mem_escapedChar hd ▸ hc
      obtain ⟨first', rest', hcut, hjoined⟩ := fieldsBy_append hnone (escapeBraces t)
      obtain ⟨rfl, rfl⟩ := List.cons.inj (ih.symm.trans hcut)
      rw [hjoined, fieldsBy, hc, ht]
      exact congrArg (· :: _) (escapeBraces_cons c first).symm

/-- The lines of an escaped text are the escaped lines. -/
theorem lines_escapeBraces (t : Text) : lines (escapeBraces t) = (lines t).map escapeBraces :=
  fieldsBy_escapeBraces rfl rfl t

theorem escapeBraces_isEmpty (t : Text) : (escapeBraces t).isEmpty = t.isEmpty := by
  cases t with
  | nil => rfl
  | cons c t =>
    rw [escapeBraces_cons]
    unfold escapedChar
    split <;> rfl

/-- The words of an escaped text are the escaped words. -/
theorem words_escapeBraces (t : Text) : words (escapeBraces t) = (words t).map escapeBraces := by
  unfold words
  rw [fieldsBy_escapeBraces (by decide) (by decide), List.filter_map]
  refine congrArg _ (List.filter_congr fun w _ => ?_)
  exact congrArg not (escapeBraces_isEmpty w)

/-- Escaped lines are joined as the lines are. -/
theorem escapeBraces_unlines (ts : List Text) :
    escapeBraces (unlines ts) = unlines (ts.map escapeBraces) := by
  have hnewline (t : Text) : escapeBraces ('\n' :: t) = '\n' :: escapeBraces t :=
    escapeBraces_append ['\n'] t
  induction ts with
  | nil => rfl
  | cons t ts ih =>
    cases ts with
    | nil => rw [List.map_singleton, unlines_singleton, unlines_singleton]
    | cons u ts =>
      rw [unlines_cons_cons, escapeBraces_append, hnewline, ih]
      exact (unlines_cons_cons _ _ _).symm

/-! ## §2. Undoing it. -/

theorem halvePairs_cons_of_ne {a c : Char} (h : a ≠ c) (t : Text) :
    halvePairs c (a :: t) = a :: halvePairs c t := by
  cases t with
  | nil => rfl
  | cons b t =>
    rw [halvePairs, if_neg fun hboth => h hboth.1]

theorem doubleEach_cons (a c : Char) (t : Text) :
    doubleEach c (a :: t) = (if a = c then [c, c] else [a]) ++ doubleEach c t :=
  List.flatMap_cons

theorem halvePairs_doubleEach (c : Char) (t : Text) : halvePairs c (doubleEach c t) = t := by
  induction t with
  | nil => rfl
  | cons a t ih =>
    rw [doubleEach_cons]
    by_cases ha : a = c
    · rw [if_pos ha, ha]
      show halvePairs c (c :: c :: doubleEach c t) = _
      rw [halvePairs, if_pos ⟨rfl, rfl⟩, ih]
    · rw [if_neg ha]
      show halvePairs c (a :: doubleEach c t) = _
      rw [halvePairs_cons_of_ne ha, ih]

/-- Opening and closing braces may be doubled in either order. -/
theorem escapeBraces_eq_open_last (t : Text) :
    escapeBraces t = doubleEach '{' (doubleEach '}' t) := by
  rw [escapeBraces_eq, doubleEach_doubleEach (by decide)]
  rfl

/-- **Escaping can be undone.** -/
theorem unescapeBraces_escapeBraces (t : Text) : unescapeBraces (escapeBraces t) = t := by
  unfold unescapeBraces
  rw [escapeBraces_eq_open_last, halvePairs_doubleEach, halvePairs_doubleEach]

theorem escapeBraces_injective : Function.Injective escapeBraces :=
  Function.LeftInverse.injective unescapeBraces_escapeBraces

/-- Taking pairs together leaves at least half of each run. -/
theorem sublist_doubleEach (c : Char) (t : Text) :
    t.Sublist (doubleEach c (halvePairs c t)) := by
  induction t using halvePairs.induct c with
  | case1 a b rest h ih =>
    obtain ⟨rfl, rfl⟩ := h
    rw [halvePairs, if_pos ⟨rfl, rfl⟩, doubleEach_cons, if_pos rfl]
    exact (ih.cons_cons _).cons_cons _
  | case2 a b rest h ih =>
    rw [halvePairs, if_neg h, doubleEach_cons]
    split
    · next ha =>
      rw [ha]
      exact (ih.cons _).cons_cons c
    · exact ih.cons_cons a
  | case3 t ht =>
    -- at most one character is left
    cases t with
    | nil => exact List.nil_sublist _
    | cons a t =>
      cases t with
      | nil =>
        show [a].Sublist (doubleEach c [a])
        rw [doubleEach_cons]
        split
        · next ha => exact ha ▸ (List.Sublist.refl _).trans (by simp)
        · exact List.sublist_append_left _ _
      | cons b t => exact absurd rfl (ht a b t)

/-- **Taking pairs of braces together and doubling them again loses none.** -/
theorem sublist_escapeBraces (u : Text) : u.Sublist (escapeBraces (unescapeBraces u)) := by
  rw [escapeBraces_eq_open_last]
  exact (sublist_doubleEach '{' u).trans ((sublist_doubleEach '}' _).flatMap _)

theorem filter_halvePairs {p : Char → Bool} {c : Char} (hc : p c = false) (t : Text) :
    (halvePairs c t).filter p = t.filter p := by
  induction t using halvePairs.induct c with
  | case1 a b rest h ih =>
    obtain ⟨rfl, rfl⟩ := h
    rw [halvePairs, if_pos ⟨rfl, rfl⟩]
    simp [hc, ih]
  | case2 a b rest h ih => rw [halvePairs, if_neg h, List.filter_cons, List.filter_cons, ih]
  | case3 t ht =>
    cases t with
    | nil => rfl
    | cons a t =>
      cases t with
      | nil => rfl
      | cons b t => exact absurd rfl (ht a b t)

/-- Braces are neither blank nor made blank. -/
theorem blanks_unescapeBraces (u : Text) :
    (unescapeBraces u).filter isBlank = u.filter isBlank := by
  unfold unescapeBraces
  rw [filter_halvePairs (by decide), filter_halvePairs (by decide)]

theorem blanks_escapeBraces (t : Text) : (escapeBraces t).filter isBlank = t.filter isBlank := by
  have h := blanks_unescapeBraces (escapeBraces t)
  rw [unescapeBraces_escapeBraces] at h
  exact h.symm

/-! ## §3. Escaped texts. -/

/-- The text is the escaped form of some text: every brace in it has its double. -/
def Escaped (u : Text) : Prop := ∃ t, u = escapeBraces t

theorem escaped_iff {u : Text} : u.Escaped ↔ escapeBraces (unescapeBraces u) = u := by
  constructor
  · rintro ⟨t, rfl⟩
    rw [unescapeBraces_escapeBraces]
  · exact fun h => ⟨_, h.symm⟩

instance (u : Text) : Decidable u.Escaped := decidable_of_iff _ escaped_iff.symm

theorem Escaped.of_no_brace {u : Text} (hopen : '{' ∉ u) (hclose : '}' ∉ u) : u.Escaped :=
  ⟨u, (escapeBraces_of_no_brace hopen hclose).symm⟩

theorem Escaped.append {u v : Text} (hu : u.Escaped) (hv : v.Escaped) : (u ++ v).Escaped := by
  obtain ⟨s, rfl⟩ := hu
  obtain ⟨t, rfl⟩ := hv
  exact ⟨s ++ t, (escapeBraces_append s t).symm⟩

/-- **A text is escaped exactly if its lines are.** -/
theorem escaped_iff_lines {u : Text} : u.Escaped ↔ ∀ line ∈ lines u, line.Escaped := by
  constructor
  · rintro ⟨t, rfl⟩ line hline
    rw [lines_escapeBraces] at hline
    obtain ⟨v, -, rfl⟩ := List.mem_map.mp hline
    exact ⟨v, rfl⟩
  · intro h
    have hlines : ((lines u).map unescapeBraces).map escapeBraces = lines u := by
      rw [List.map_map]
      exact (List.map_congr_left fun line hline => escaped_iff.mp (h line hline)).trans
        (List.map_id _)
    refine ⟨unlines ((lines u).map unescapeBraces), ?_⟩
    rw [escapeBraces_unlines, hlines, unlines_lines]

/-- **Among texts with the ink of an escaped text, the escaped ones are those of which unescaping
gives back the ink.** -/
theorem escaped_iff_unescaped_ink {u t : Text} (h : ink u = ink (escapeBraces t)) :
    u.Escaped ↔ ink (unescapeBraces u) = ink t := by
  rw [ink_escapeBraces] at h
  constructor
  · rintro ⟨v, rfl⟩
    rw [ink_escapeBraces] at h
    rw [unescapeBraces_escapeBraces]
    exact escapeBraces_injective h
  · intro hsame
    have hink : ink (escapeBraces (unescapeBraces u)) = ink u := by
      rw [ink_escapeBraces, hsame, h]
    have hblank : (escapeBraces (unescapeBraces u)).filter isBlank = u.filter isBlank := by
      rw [blanks_escapeBraces, blanks_unescapeBraces]
    -- as much ink and as many blanks: nothing was added
    have hlength : ∀ v : Text, v.length = (v.filter isBlank).length + (ink v).length :=
      fun v => v.length_eq_length_filter_add isBlank
    refine ⟨_, (sublist_escapeBraces u).eq_of_length ?_⟩
    rw [hlength u, hlength (escapeBraces _), hink, hblank]

end TermMarkup.Text
