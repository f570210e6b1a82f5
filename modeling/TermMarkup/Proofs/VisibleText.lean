/-
  TermMarkup.Proofs.VisibleText
  ─────────────────────────────
  WHAT IS VISIBLE OF RENDERED TEXT.  Rendering reads a text in one scan, while
  stripping deletes tags until none is left.  Both leave the same text when the
  tags of the one scan are all that there are; a tag that only the deletion of
  another one makes is visible text to the former and no text to the latter.
  Codes make no such difference: whichever of them a scan finds first, what is
  left without them is one text (`Coded.removeCodes_congr`).

    • `render_coded` — rendered text is the literal text with codes put in,
    • `render_visible` — without codes it is the text with its tags deleted once,
      which is the cleaned text exactly if no tag is left then.
-/
import TermMarkup.Proofs.CodeRemoval
import TermMarkup.Proofs.CombinedScan
import TermMarkup.Proofs.WrapLines

namespace TermMarkup

/-! ## §1. Rendered text. -/

/-- **Rendered text is the literal text with codes put in.** -/
theorem render_coded {theme : Theme} {t rendered : Text} (h : t.render theme = .ok rendered) :
    Text.Coded (dropMarks Mark.any? t) rendered := by
  obtain ⟨ts, rs, hts, -, hcompiled, rfl⟩ := render_eq_ok h
  have hcoherent : Item.Coherent [] (rs.flatMap Run.items) :=
    ofTokens_coherent hcompiled empty_sound (tokens_codeFormed hts)
  have hsound := hcoherent.sound fun e he => nomatch he
  rw [foldl_after_runs] at hsound
  have hcoded := (runs_coded hcoherent).append (textEnding_coded hsound)
  rw [List.append_nil, ofTokens_literal hcompiled, tokens_plain hts] at hcoded
  exact hcoded

/-! ## §2. Opening braces. -/

/-- Codes put into a text bring no opening brace. -/
theorem Text.Coded.count_brace {u t : Text} (h : Coded u t) : t.count '{' = u.count '{' := by
  induction h with
  | nil => rfl
  | char c _ ih => rw [List.count_cons, List.count_cons, ih]
  | code hp _ ih =>
    rw [List.count_append, List.count_eq_zero.mpr (notMem_code hp (by decide)), Nat.zero_add, ih]

/-- Removing codes leaves every opening brace. -/
theorem count_brace_removeCodes (t : Text) : (Text.removeCodes t).count '{' = t.count '{' := by
  unfold Text.removeCodes
  induction t using clearMarks.induct Mark.code? with
  | case1 t rest hlt ih =>
    rw [clearMarks_eq, if_pos hlt]
    exact ih.trans (Text.dropCodes_coded false t).count_brace.symm
  | case2 t rest hge => rw [clearMarks_eq, if_neg hge]

/-- A tag has an opening brace. -/
theorem count_brace_tag (closes : Bool) (body : Text) :
    0 < (Mark.tag closes body).source.count '{' := by
  refine List.count_pos_iff.mpr ?_
  cases closes <;> exact List.mem_cons_self

/-! ## §3. Tags that are left. -/

/-- Each tag among pieces takes an opening brace along. -/
theorem count_brace_plainOf (ps : List Piece) (offset : Nat) :
    (plainOf ps).count '{' + (tagsFrom offset ps).length
      ≤ (ps.flatMap Piece.source).count '{' := by
  induction ps generalizing offset with
  | nil => exact Nat.le_refl 0
  | cons p ps ih =>
    have hrest := ih (offset + p.source.length)
    rw [List.flatMap_cons, List.count_append]
    cases p with
    | plain c =>
      have htags : tagsFrom offset (.plain c :: ps) = tagsFrom (offset + 1) ps := rfl
      have hrest : _ + (tagsFrom (offset + 1) ps).length ≤ _ := hrest
      rw [plainOf_plain, htags, ← List.singleton_append, List.count_append]
      show _ ≤ List.count '{' [c] + _
      omega
    | mark m =>
      rw [plainOf_mark]
      cases m with
      | code params => exact Nat.le_trans hrest (Nat.le_add_left _ _)
      | tag closes body =>
        have hbrace := count_brace_tag closes body
        show _ + (List.length (tagsFrom _ ps) + 1) ≤ (Mark.tag closes body).source.count '{' + _
        omega

/-- **Deleting the tags of a text takes an opening brace for each of them.** -/
theorem count_brace_dropTags (t : Text) :
    (dropMarks Mark.tag? t).count '{' + t.tags.length ≤ t.count '{' := by
  have h := count_brace_plainOf (pieces Mark.tag? t) 0
  rw [show (pieces Mark.tag? t).flatMap Piece.source = t from scan_source tag?_finds false t] at h
  exact h

/-- Pieces without marks are their plain characters. -/
theorem plainOf_eq_source {ps : List Piece} (h : ∀ m, Piece.mark m ∉ ps) :
    plainOf ps = ps.flatMap Piece.source := by
  induction ps with
  | nil => rfl
  | cons p ps ih =>
    have hrest := ih fun m hm => h m (List.mem_cons_of_mem _ hm)
    cases p with
    | plain c => rw [plainOf_plain, hrest, List.flatMap_cons]; rfl
    | mark m => exact absurd List.mem_cons_self (h m)

/-- A scan that finds no mark takes nothing. -/
theorem dropMarks_eq_self {read : Recognizer} (hread : read.Finds) {t : Text}
    (h : ∀ m, Piece.mark m ∉ pieces read t) : dropMarks read t = t := by
  unfold dropMarks
  rw [plainOf_eq_source h]
  exact scan_source hread false t

/-- A text without tags has none among its pieces. -/
theorem no_mark_of_tags_eq_nil {t : Text} (h : t.tags = []) :
    ∀ m, Piece.mark m ∉ pieces Mark.tag? t := by
  intro m hm
  obtain ⟨b, t', hread⟩ := mem_scan hm
  obtain ⟨-, closes, body, -, rfl, -⟩ := tag?_eq_some_iff.mp hread
  obtain ⟨tag, htag, -⟩ := exists_tag hm 0
  rw [show tagsFrom 0 (pieces Mark.tag? t) = [] from h] at htag
  exact nomatch htag

/-- A text without tags stays as it is. -/
theorem dropTags_of_tags_eq_nil {t : Text} (h : t.tags = []) : dropMarks Mark.tag? t = t :=
  dropMarks_eq_self tag?_finds (no_mark_of_tags_eq_nil h)

/-- What is stripped of its tags is stripped of those that the first deletion leaves. -/
theorem stripTags_sublist (t : Text) :
    (Text.stripTags t).Sublist (dropMarks Mark.tag? (dropMarks Mark.tag? t)) := by
  unfold Text.stripTags
  by_cases hlt : (dropMarks Mark.tag? t).length < t.length
  · rw [clearMarks_eq, if_pos hlt]
    exact clearMarks_sublist Mark.tag? _
  · -- then the first deletion leaves the text as it is
    rw [dropMarks_eq_of_not_lt hlt]
    exact clearMarks_sublist Mark.tag? t

/-- Where one deletion leaves no tag, it is all that is stripped. -/
theorem stripTags_eq {t : Text} (h : (dropMarks Mark.tag? t).tags = []) :
    Text.stripTags t = dropMarks Mark.tag? t := by
  have hsame := dropTags_of_tags_eq_nil h
  have hcleared : clearMarks Mark.tag? (dropMarks Mark.tag? t) = dropMarks Mark.tag? t := by
    rw [clearMarks_eq, hsame, if_neg (Nat.lt_irrefl _)]
  unfold Text.stripTags
  rw [clearMarks_eq]
  split
  · exact hcleared
  · next hge =>
    exact (dropMarks_eq_of_not_lt hge).symm

/-- **One deletion and stripping leave the same visible text exactly if no tag is left by the
first.** -/
theorem removeCodes_dropTags_eq_iff (t : Text) :
    Text.removeCodes (dropMarks Mark.tag? t) = Text.removeCodes (Text.stripTags t)
      ↔ (dropMarks Mark.tag? t).tags = [] := by
  constructor
  · intro h
    -- both hold the same opening braces, and every tag that were left would take one
    have hcount := congrArg (List.count '{') h
    rw [count_brace_removeCodes, count_brace_removeCodes] at hcount
    have hstripped := (stripTags_sublist t).count_le '{'
    have hdropped := count_brace_dropTags (dropMarks Mark.tag? t)
    exact List.length_eq_zero_iff.mp (by omega)
  · intro h
    rw [stripTags_eq h]

/-! ## §4. Rendered text without codes. -/

/-- **What is visible of rendered text.**  Without codes, rendered `t` is what is left of `t` when
its tags are deleted once and its codes removed.  That is the cleaned text exactly if the one
deletion leaves no tag. -/
theorem render_visible {theme : Theme} {t rendered : Text} (h : t.render theme = .ok rendered) :
    Text.removeCodes rendered = Text.removeCodes (dropMarks Mark.tag? t)
      ∧ ∀ cleaned, t.clean = .ok cleaned →
          (Text.removeCodes rendered = cleaned ↔ (dropMarks Mark.tag? t).tags = []) := by
  have hvisible : Text.removeCodes rendered = Text.removeCodes (dropMarks Mark.tag? t) := by
    rw [(render_coded h).removeCodes_congr, (dropTags_coded t).removeCodes_congr]
  refine ⟨hvisible, fun cleaned hcleaned => ?_⟩
  obtain ⟨stripped, hstripped, hcleaned⟩ := bind_eq_ok.mp hcleaned
  obtain ⟨-, -, hstripped⟩ := bind_eq_ok.mp hstripped
  obtain ⟨-, -, hstripped⟩ := bind_eq_ok.mp hstripped
  obtain rfl := Except.ok.inj hstripped
  obtain rfl := Except.ok.inj hcleaned
  rw [hvisible]
  exact removeCodes_dropTags_eq_iff t

/-- A tag parts a code of the text, and both go; a doubled brace stays. -/
theorem render_visible_parted :
    Text.render Theme.standard "{bold}a\x1b[{/bold}31mb\x7b\x7bc\x7d".toList
        = .ok "\x1b[1ma\x1b[\x1b[22m31mb\x7b\x7bc\x7d".toList
      ∧ Text.clean "{bold}a\x1b[{/bold}31mb\x7b\x7bc\x7d".toList
          = .ok "ab\x7b\x7bc\x7d".toList
      ∧ Text.removeCodes "\x1b[1ma\x1b[\x1b[22m31mb\x7b\x7bc\x7d".toList
          = "ab\x7b\x7bc\x7d".toList := by
  have h : Text.render Theme.standard "{bold}a\x1b[{/bold}31mb\x7b\x7bc\x7d".toList
      = .ok "\x1b[1ma\x1b[\x1b[22m31mb\x7b\x7bc\x7d".toList := by
    decide +kernel
  have hclean : Text.clean "{bold}a\x1b[{/bold}31mb\x7b\x7bc\x7d".toList
      = .ok "ab\x7b\x7bc\x7d".toList := by
    decide +kernel
  have htags : (dropMarks Mark.tag? "{bold}a\x1b[{/bold}31mb\x7b\x7bc\x7d".toList).tags = [] := by
    decide +kernel
  exact ⟨h, hclean, ((render_visible h).2 _ hclean).mpr htags⟩

/-- **Rendering and stripping differ on what is visible** where a tag parts another one. -/
theorem render_visible_split_tag :
    Text.render Theme.standard "{/{red}bold}".toList
        = .ok "\x7b/\x1b[31mbold\x7d\x1b[39m\x1b[0m".toList
      ∧ Text.clean "{/{red}bold}".toList = .ok []
      ∧ Text.removeCodes "\x7b/\x1b[31mbold\x7d\x1b[39m\x1b[0m".toList ≠ [] := by
  decide +kernel

end TermMarkup
