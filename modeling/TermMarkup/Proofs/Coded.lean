/-
  TermMarkup.Proofs.Coded
  ───────────────────────
  TEXT WITH CODES PUT IN.  Codes that are put into a text stand apart from it
  in every respect that matters to a reader: they part no line, no tag runs
  across one, and when all codes are removed they are gone.  The text itself
  may hold the escape character, and then removing codes takes pieces of the
  text along, but never brings anything in.

    • `Text.Coded` — a text with codes put in,
    • `Coded.lines` — codes stay on their lines,
    • `Coded.removeCodes_eq` — removing codes gives the text back, if it has no
      escape character,
    • `Coded.visible_sublist` — what is left without tags and codes is in the
      text, whatever the text holds.
-/
import TermMarkup.Proofs.Fields
import TermMarkup.Proofs.Scan
import TermMarkup.Sgr.Code
import TermMarkup.Tag
import Mathlib.Data.List.Forall2

namespace TermMarkup

/-! ## §1. Codes put into a text. -/

/-- The second text is the first with codes put in. -/
inductive Text.Coded : Text → Text → Prop
  | nil : Coded [] []
  | char (c : Char) {u t : Text} : Coded u t → Coded (c :: u) (c :: t)
  | code {p u t : Text} : p.all isParamChar = true → Coded u t → Coded u (Sgr.code p ++ t)

theorem length_lt_code_append (p t : Text) : t.length < (Sgr.code p ++ t).length := by
  have hcode : 0 < (Sgr.code p).length := Nat.succ_pos _
  rw [List.length_append]
  omega

theorem notMem_code {p : Text} (hp : p.all isParamChar = true) {c : Char}
    (hc : isParamChar c = false ∧ c ∉ [Sgr.escape, '[', 'm']) : c ∉ Sgr.code p := by
  intro h
  obtain ⟨hparam, hne⟩ := hc
  simp only [List.mem_cons, not_or] at hne
  rcases List.mem_cons.mp h with h | h
  · exact hne.1 h
  · rcases List.mem_cons.mp h with h | h
    · exact hne.2.1 h
    · rcases List.mem_append.mp h with h | h
      · exact absurd (List.all_eq_true.mp hp _ h) (by simp [hparam])
      · exact hne.2.2.1 (List.mem_singleton.mp h)

/-- Only the first character of a code is the escape character. -/
theorem escape_notMem_codeTail {p : Text} (hp : p.all isParamChar = true) :
    Sgr.escape ∉ '[' :: (p ++ ['m']) := by
  intro hmem
  rcases List.mem_cons.mp hmem with hmem | hmem
  · exact absurd hmem (by decide)
  · rcases List.mem_append.mp hmem with hmem | hmem
    · exact (isParamChar_ne (List.all_eq_true.mp hp _ hmem)).2 rfl
    · exact absurd (List.mem_singleton.mp hmem) (by decide)

namespace Text.Coded

theorem refl (u : Text) : Coded u u := by
  induction u with
  | nil => exact nil
  | cons c u ih => exact char c ih

theorem append {u t u' t' : Text} (h : Coded u t) (h' : Coded u' t') :
    Coded (u ++ u') (t ++ t') := by
  induction h with
  | nil => exact h'
  | char c _ ih => exact char c ih
  | code hp _ ih =>
    rw [List.append_assoc]
    exact code hp ih

theorem sgr {p : Text} (hp : p.all isParamChar = true) : Coded [] (Sgr.code p) := by
  have h := code hp nil
  rw [List.append_nil] at h
  exact h

theorem length_le {u t : Text} (h : Coded u t) : u.length ≤ t.length := by
  induction h with
  | nil => exact Nat.le_refl _
  | char c _ ih => simpa using ih
  | @code p u t _ _ ih => exact Nat.le_trans ih (Nat.le_of_lt (length_lt_code_append p t))

/-- A character that no code holds stands in the text itself. -/
theorem notMem {u t : Text} (h : Coded u t) {c : Char}
    (hc : isParamChar c = false ∧ c ∉ [Sgr.escape, '[', 'm']) (hu : c ∉ u) : c ∉ t := by
  induction h with
  | nil => exact hu
  | char d _ ih =>
    rw [List.mem_cons, not_or] at hu ⊢
    exact ⟨hu.1, ih hu.2⟩
  | code hp _ ih =>
    rw [List.mem_append, not_or]
    exact ⟨notMem_code hp hc, ih hu⟩

/-- A text that is not longer than what it was made of has no codes put in. -/
theorem eq_of_length_le {u t : Text} (h : Coded u t) (hlen : t.length ≤ u.length) : t = u := by
  induction h with
  | nil => rfl
  | char c _ ih => rw [ih (by simpa using hlen)]
  | @code p u t _ hrest _ =>
    have hle := hrest.length_le
    have hlt := length_lt_code_append p t
    omega

/-- **Text without the escape character in front is text, not part of a code.** -/
theorem of_append {s u t : Text} (hs : Sgr.escape ∉ s) (h : Coded u (s ++ t)) :
    ∃ u', u = s ++ u' ∧ Coded u' t := by
  induction s generalizing u with
  | nil => exact ⟨u, rfl, h⟩
  | cons c s ih =>
    have hc : Sgr.escape ≠ c := fun heq => hs (heq ▸ List.mem_cons_self)
    have hs' : Sgr.escape ∉ s := fun hmem => hs (List.mem_cons_of_mem _ hmem)
    rw [List.cons_append] at h
    generalize hw : c :: (s ++ t) = w at h
    cases h with
    | nil => exact nomatch hw
    | char d hrest =>
      obtain ⟨rfl, rfl⟩ := List.cons.inj hw
      obtain ⟨u', rfl, hu'⟩ := ih hs' hrest
      exact ⟨u', rfl, hu'⟩
    | code hp hrest => exact absurd (List.cons.inj hw).1.symm hc

end Text.Coded

/-! ## §2. Lines. -/

theorem lines_newline (t : Text) : Text.lines ('\n' :: t) = [] :: Text.lines t := rfl

/-- Text without a newline in front is joined to the first line. -/
theorem lines_append {s : Text} (hs : '\n' ∉ s) (t : Text) :
    ∃ first rest, Text.lines t = first :: rest ∧ Text.lines (s ++ t) = (s ++ first) :: rest :=
  Text.fieldsBy_append (fun c hc => by simpa using fun h : c = '\n' => hs (h ▸ hc)) t

/-- **Codes stay on their lines.** -/
theorem Text.Coded.lines {u t : Text} (h : Coded u t) :
    List.Forall₂ Coded (Text.lines u) (Text.lines t) := by
  induction h with
  | nil => exact .cons .nil .nil
  | @char c u t _ ih =>
    by_cases hc : c = '\n'
    · rw [hc, lines_newline, lines_newline]
      exact .cons .nil ih
    · have hs : '\n' ∉ [c] := by simpa using Ne.symm hc
      obtain ⟨first, rest, hu, hcu⟩ := lines_append hs u
      obtain ⟨first', rest', ht, hct⟩ := lines_append hs t
      rw [hu, ht] at ih
      cases ih with
      | cons hfirst hrest =>
        show List.Forall₂ Coded (Text.lines ([c] ++ u)) (Text.lines ([c] ++ t))
        rw [hcu, hct]
        exact .cons (.char c hfirst) hrest
  | @code p u t hp _ ih =>
    obtain ⟨first, rest, ht, hct⟩ := lines_append (notMem_code hp (by decide)) t
    rw [ht] at ih
    rw [hct]
    generalize Text.lines u = ls at ih
    cases ih with
    | cons hfirst hrest => exact .cons (.code hp hfirst) hrest

/-! ## §3. Removing marks. -/

theorem clearMarks_eq (read : Recognizer) (t : Text) :
    clearMarks read t
      = if (dropMarks read t).length < t.length then clearMarks read (dropMarks read t) else t := by
  rw [clearMarks]

theorem plainOf_plain (c : Char) (ps : List Piece) :
    plainOf (.plain c :: ps) = c :: plainOf ps := rfl

theorem plainOf_mark (m : Mark) (ps : List Piece) : plainOf (.mark m :: ps) = plainOf ps := rfl

/-- Dropping marks brings nothing in. -/
theorem plainOf_scan_sublist (read : Recognizer) (b : Bool) (t : Text) :
    (plainOf (scan read b t)).Sublist t := by
  induction b, t using scan.induct read with
  | case1 b =>
    rw [scan]
    exact List.Sublist.refl _
  | case2 b c cs m hm ih =>
    rw [scan, hm]
    exact (ih.trans (List.drop_sublist _ cs)).trans (List.sublist_cons_self c cs)
  | case3 b c cs hm ih =>
    rw [scan, hm]
    exact ih.cons_cons c

/-- A scan that does not make the text shorter takes nothing. -/
theorem dropMarks_eq_of_not_lt {read : Recognizer} {t : Text}
    (h : ¬(dropMarks read t).length < t.length) : dropMarks read t = t :=
  (plainOf_scan_sublist read false t).eq_of_length_le (Nat.le_of_not_lt h)

/-- Clearing marks leaves no more than dropping them once. -/
theorem clearMarks_sublist (read : Recognizer) (t : Text) :
    (clearMarks read t).Sublist (dropMarks read t) := by
  induction t using clearMarks.induct read with
  | case1 t rest hlt ih =>
    rw [clearMarks_eq, if_pos hlt]
    exact ih.trans (plainOf_scan_sublist read false _)
  | case2 t rest hge =>
    rw [clearMarks_eq, if_neg hge, dropMarks_eq_of_not_lt hge]

/-! ## §4. Removing tags and codes of a text with codes put in. -/

theorem read?_of_ne (b : Bool) {c : Char} (hc : c ≠ '{') (cs : Text) :
    TagHead.read? b (c :: cs) = none := by
  unfold TagHead.read?
  split
  · rfl
  · split
    · next h => exact absurd (List.cons.inj h).1 hc
    · next h => exact absurd (List.cons.inj h).1 hc
    · rfl

/-- The head of an opening tag is that of its body, as no body starts with a slash. -/
theorem read?_open {c : Char} (hc : c ≠ '/') (cs : Text) :
    TagHead.read? false ('{' :: c :: cs) = TagHead.ofBody? false (c :: cs) := by
  unfold TagHead.read?
  rw [if_neg Bool.false_ne_true]
  split
  · next h => exact absurd (List.cons.inj (List.cons.inj h).2).1 hc
  · next h => rw [(List.cons.inj h).2]
  · next h => exact absurd rfl (h _)

theorem tag?_of_ne (b : Bool) {c : Char} (hc : c ≠ '{') (cs : Text) :
    Mark.tag? b (c :: cs) = none := by
  unfold Mark.tag?
  rw [read?_of_ne b hc]

/-- A scan for tags crosses text without an opening brace one by one. -/
theorem scan_tag?_plain {s : Text} (hs : '{' ∉ s) (b : Bool) (rest : Text) :
    scan Mark.tag? b (s ++ rest)
      = s.map .plain ++ scan Mark.tag? (b && s.isEmpty) rest := by
  induction s generalizing b with
  | nil => rw [List.isEmpty_nil, Bool.and_true]; rfl
  | cons c s ih =>
    have hc : c ≠ '{' := fun h => hs (h ▸ List.mem_cons_self)
    have hflag : (c == '{') = false := by simpa using hc
    rw [List.cons_append, scan_plain (tag?_of_ne b hc _), hflag,
      ih fun h => hs (List.mem_cons_of_mem _ h), List.isEmpty_cons, Bool.and_false, Bool.false_and]
    rfl

/-- **A scan for tags crosses a code**, and comes out behind another character than a brace. -/
theorem scan_tag?_code (b : Bool) {p : Text} (hp : p.all isParamChar = true) (rest : Text) :
    scan Mark.tag? b (Sgr.code p ++ rest)
      = (Sgr.code p).map .plain ++ scan Mark.tag? false rest := by
  have h := scan_tag?_plain (notMem_code hp (by decide)) b rest
  rwa [show (Sgr.code p).isEmpty = false from rfl, Bool.and_false] at h

theorem plainOf_append_plain (s : Text) (ps : List Piece) :
    plainOf (s.map .plain ++ ps) = s ++ plainOf ps := by
  induction s with
  | nil => rfl
  | cons c s ih =>
    rw [List.map_cons, List.cons_append, plainOf_plain, ih]
    rfl

theorem escape_notMem_tag {closes : Bool} {body : Text} (hbody : body.all isTagChar = true) :
    Sgr.escape ∉ (Mark.tag closes body).source := by
  intro h
  rcases List.mem_append.mp h with h | h
  · rcases List.mem_append.mp h with h | h
    · cases closes <;> exact absurd h (by decide)
    · exact (isTagChar_ne (List.all_eq_true.mp hbody _ h)).2 rfl
  · exact absurd (List.mem_singleton.mp h) (by decide)

namespace Text.Coded

/-- **A tag runs across no code**: dropping tags takes pieces of the text and leaves the codes. -/
theorem dropTags {u t : Text} (h : Coded u t) (b : Bool) :
    ∃ u', u'.Sublist u ∧ Coded u' (plainOf (scan Mark.tag? b t)) := by
  -- on the length: a tag takes several characters off at once
  induction hn : t.length using Nat.strongRecOn generalizing u t b with
  | ind n ih =>
    subst hn
    cases h with
    | nil =>
      rw [scan]
      exact ⟨[], List.Sublist.refl _, nil⟩
    | @char c u t h =>
      cases hm : Mark.tag? b (c :: t) with
      | none =>
        obtain ⟨u', hu', hcoded⟩ := ih t.length (by simp) h (c == '{') rfl
        rw [scan_plain hm]
        exact ⟨c :: u', hu'.cons_cons c, char c hcoded⟩
      | some m =>
        -- the tag has no escape character, so all of it is of the text
        obtain ⟨closes, body, rest, -, hbody, rfl, hsource⟩ := tag?_eq_some hm
        rw [hsource] at hm ⊢
        have hcoded : Coded (c :: u) ((Mark.tag closes body).source ++ rest) :=
          hsource ▸ char c h
        obtain ⟨u₀, hu, hrest⟩ := hcoded.of_append (escape_notMem_tag hbody)
        have hlen : rest.length < (c :: t).length := by
          have hpos := List.length_pos_iff.mpr (source_ne_nil (.tag closes body))
          rw [hsource, List.length_append]
          omega
        obtain ⟨u', hu', hdropped⟩ := ih rest.length hlen hrest false rfl
        rw [scan_mark hm, plainOf_mark, hu]
        exact ⟨u', hu'.trans (List.sublist_append_right _ _), hdropped⟩
    | @code p u t hp h =>
      obtain ⟨u', hu', hdropped⟩ := ih t.length (length_lt_code_append p t) h false rfl
      rw [scan_tag?_code b hp, plainOf_append_plain]
      exact ⟨u', hu', code hp hdropped⟩

theorem stripTags {u t : Text} (h : Coded u t) :
    ∃ u', u'.Sublist u ∧ Coded u' (Text.stripTags t) := by
  unfold Text.stripTags
  induction hn : t.length using Nat.strongRecOn generalizing u t with
  | ind n ih =>
    subst hn
    rw [clearMarks_eq]
    split
    · next hlt =>
      obtain ⟨u', hu', hdropped⟩ := h.dropTags false
      obtain ⟨u'', hu'', hcleared⟩ := ih _ hlt hdropped rfl
      exact ⟨u'', hu''.trans hu', hcleared⟩
    · exact ⟨u, List.Sublist.refl u, h⟩

/-- **Dropping codes takes all that were put in**, and may take pieces of the text. -/
theorem dropCodes_sublist {u t : Text} (h : Coded u t) (b : Bool) :
    (plainOf (scan Mark.code? b t)).Sublist u := by
  induction hn : t.length using Nat.strongRecOn generalizing u t b with
  | ind n ih =>
    subst hn
    cases h with
    | nil =>
      rw [scan]
      exact List.Sublist.refl _
    | @char c u t h =>
      cases hm : Mark.code? b (c :: t) with
      | none =>
        rw [scan_plain hm]
        exact (ih t.length (by simp) h (c == '{') rfl).cons_cons c
      | some m =>
        -- the escape character is of the text, so the rest of the code is
        obtain ⟨p, rest, hp, rfl, hsource⟩ := code?_eq_some hm
        obtain ⟨-, htail⟩ := List.cons.inj hsource
        rw [htail] at h
        obtain ⟨u₀, rfl, hrest⟩ :=
          of_append (s := '[' :: (p ++ ['m'])) (escape_notMem_codeTail hp) h
        have hlen : rest.length < (c :: t).length := by
          rw [hsource]
          exact length_lt_code_append p rest
        have hdropped := ih rest.length hlen hrest b rfl
        rw [hsource, scan_code?_code b hp, plainOf_mark]
        exact (hdropped.trans (List.sublist_append_right _ u₀)).cons c
    | @code p u t hp h =>
      rw [scan_code?_code b hp, plainOf_mark]
      exact ih t.length (length_lt_code_append p t) h b rfl

/-- **What is left without tags and codes is in the text.** -/
theorem visible_sublist {u t : Text} (h : Coded u t) :
    (Text.removeCodes (Text.stripTags t)).Sublist u := by
  obtain ⟨u', hu', hstripped⟩ := h.stripTags
  exact ((clearMarks_sublist Mark.code? _).trans (hstripped.dropCodes_sublist false)).trans hu'

theorem dropCodes_eq {u t : Text} (hu : Sgr.escape ∉ u) (h : Coded u t) (b : Bool) :
    plainOf (scan Mark.code? b t) = u := by
  induction h generalizing b with
  | nil =>
    rw [scan]
    rfl
  | char c _ ih =>
    have hc : c ≠ Sgr.escape := fun heq => hu (heq ▸ List.mem_cons_self)
    rw [scan_plain (code?_of_ne b hc _), plainOf_plain, ih fun hmem =>
      hu (List.mem_cons_of_mem _ hmem)]
  | code hp _ ih => rw [scan_code?_code b hp, plainOf_mark, ih hu]

/-- **Removing codes gives back a text without the escape character.** -/
theorem removeCodes_eq {u t : Text} (hu : Sgr.escape ∉ u) (h : Coded u t) :
    Text.removeCodes t = u := by
  have hdrop : ∀ {t : Text}, Coded u t → dropMarks Mark.code? t = u :=
    fun h => h.dropCodes_eq hu false
  have hself : Text.removeCodes u = u := by
    unfold Text.removeCodes
    rw [clearMarks_eq, hdrop (refl u), if_neg (Nat.lt_irrefl _)]
  unfold Text.removeCodes at hself ⊢
  rw [clearMarks_eq, hdrop h]
  split
  · exact hself
  · next hge => exact h.eq_of_length_le (Nat.le_of_not_lt hge)

theorem removeCodes_lines {us ts : List Text} (h : List.Forall₂ Coded us ts)
    (hus : ∀ u ∈ us, Sgr.escape ∉ u) : ts.map Text.removeCodes = us := by
  induction h with
  | nil => rfl
  | cons hline _ ih =>
    rw [List.map_cons, hline.removeCodes_eq (hus _ List.mem_cons_self),
      ih fun u hu => hus u (List.mem_cons_of_mem _ hu)]

end Text.Coded

end TermMarkup
