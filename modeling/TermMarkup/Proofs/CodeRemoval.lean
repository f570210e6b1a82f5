/-
  TermMarkup.Proofs.CodeRemoval
  ─────────────────────────────
  REMOVING CODES HAS ONE RESULT.  A text is reduced from left to right, and an
  `m` that completes a code with what is left so far takes that code away.  A
  code that is put in anywhere is pushed and taken away again, so it leaves no
  trace in the reduced text; and a text without codes is its own reduced text.
  Hence what scan after scan leaves is the reduced text, whichever codes each
  scan has taken, and codes put into a text do not change what is left of it.

    • `foldl_reduceStep_code` — a code leaves no trace,
    • `Text.CodeFree` — a text in which no code stands,
    • `removeCodes_eq_reduced` — what is left without codes is the reduced text,
    • `Coded.removeCodes_congr` — codes put into a text do not change what is left.
-/
import TermMarkup.Proofs.Coded
import TermMarkup.Proofs.Pieces

namespace TermMarkup

namespace Text

/-! ## §1. Reducing from left to right. -/

/-- One character more, behind what is left so far; `kept` holds that from its end on. -/
def reduceStep (kept : Text) (c : Char) : Text :=
  if c = 'm' then
    match kept.dropWhile isParamChar with
    | '[' :: '\x1b' :: before => before
    | _ => c :: kept
  else c :: kept

/-- What is left of a text that is reduced from left to right. -/
def reduced (t : Text) : Text := (t.foldl reduceStep []).reverse

theorem reduceStep_of_ne {c : Char} (hc : c ≠ 'm') (kept : Text) : reduceStep kept c = c :: kept :=
  if_neg hc

theorem foldl_reduceStep_of_notMem {t : Text} (ht : 'm' ∉ t) (kept : Text) :
    t.foldl reduceStep kept = t.reverse ++ kept := by
  induction t generalizing kept with
  | nil => rfl
  | cons c t ih =>
    have hc : c ≠ 'm' := fun h => ht (h ▸ List.mem_cons_self)
    rw [List.foldl_cons, reduceStep_of_ne hc, ih fun h => ht (List.mem_cons_of_mem _ h),
      List.reverse_cons, List.append_assoc]
    rfl

/-- The parameters of a code that is pushed stand before its bracket. -/
theorem dropWhile_pushed {p : Text} (hp : p.all isParamChar = true) (kept : Text) :
    (p.reverse ++ '[' :: kept).dropWhile isParamChar = '[' :: kept := by
  have hall : ∀ c ∈ p.reverse, isParamChar c = true :=
    fun c hc => List.all_eq_true.mp hp c (List.mem_reverse.mp hc)
  rw [List.dropWhile_append_of_pos hall, List.dropWhile_cons_of_neg (by decide)]

/-- **A code leaves no trace.** -/
theorem foldl_reduceStep_code {p : Text} (hp : p.all isParamChar = true) (kept : Text) :
    (Sgr.code p).foldl reduceStep kept = kept := by
  have hm : 'm' ∉ Sgr.escape :: '[' :: p := by
    intro h
    rcases List.mem_cons.mp h with h | h
    · exact absurd h (by decide)
    · rcases List.mem_cons.mp h with h | h
      · exact absurd h (by decide)
      · exact (isParamChar_ne (List.all_eq_true.mp hp _ h)).1 rfl
  have hpushed : (Sgr.escape :: '[' :: p).reverse ++ kept
      = p.reverse ++ '[' :: Sgr.escape :: kept := by
    simp
  show ((Sgr.escape :: '[' :: p) ++ ['m']).foldl reduceStep kept = kept
  rw [List.foldl_append, foldl_reduceStep_of_notMem hm, hpushed]
  show reduceStep _ 'm' = kept
  unfold reduceStep
  rw [if_pos rfl, dropWhile_pushed hp]
  rfl

/-- **Codes put into a text leave no trace.** -/
theorem Coded.foldl_reduceStep {u t : Text} (h : Coded u t) (kept : Text) :
    t.foldl reduceStep kept = u.foldl reduceStep kept := by
  induction h generalizing kept with
  | nil => rfl
  | char c _ ih => exact ih (reduceStep kept c)
  | code hp _ ih => rw [List.foldl_append, foldl_reduceStep_code hp, ih]

theorem Coded.reduced_eq {u t : Text} (h : Coded u t) : t.reduced = u.reduced := by
  unfold reduced
  rw [h.foldl_reduceStep]

/-! ## §2. Texts without codes. -/

/-- No code stands in the text. -/
def CodeFree (t : Text) : Prop :=
  ∀ before p after, p.all isParamChar = true → t ≠ before ++ Sgr.code p ++ after

/-- An `m` that takes something away completes a code. -/
theorem reduceStep_eq {kept : Text} {c : Char} {after : Text}
    (h : CodeFree (kept.reverse ++ c :: after)) : reduceStep kept c = c :: kept := by
  by_cases hc : c = 'm'
  · subst hc
    unfold reduceStep
    rw [if_pos rfl]
    split
    · next before hdrop =>
      have hp : (kept.takeWhile isParamChar).reverse.all isParamChar = true := by
        rw [List.all_reverse]
        exact List.all_takeWhile
      refine absurd ?_ (h before.reverse _ after hp)
      -- what is kept is the text before the code, its two first characters and its parameters
      conv =>
        lhs
        rw [← List.takeWhile_append_dropWhile (p := isParamChar) (l := kept), hdrop]
      simp [Sgr.code, Sgr.escape]
    · rfl
  · exact reduceStep_of_ne hc kept

/-- **A text without codes is its own reduced text.** -/
theorem CodeFree.reduced_eq {t : Text} (h : CodeFree t) : t.reduced = t := by
  have hall : ∀ kept : Text, CodeFree (kept.reverse ++ t) →
      t.foldl reduceStep kept = t.reverse ++ kept := by
    induction t with
    | nil => exact fun _ _ => rfl
    | cons c t ih =>
      intro kept hfree
      have hnext : (c :: kept).reverse ++ t = kept.reverse ++ c :: t := by
        rw [List.reverse_cons, List.append_assoc]
        rfl
      have ht : CodeFree t := by
        intro before p after hp heq
        exact h (c :: before) p after hp (by rw [heq]; rfl)
      rw [List.foldl_cons, reduceStep_eq hfree, ih ht _ (hnext ▸ hfree), List.reverse_cons,
        List.append_assoc]
      rfl
  unfold reduced
  rw [hall [] h, List.append_nil, List.reverse_reverse]

/-! ## §3. What the scans leave. -/

/-- Where a code stands in a text, a scan finds one. -/
theorem length_dropCodes_lt {p : Text} (hp : p.all isParamChar = true) (before after : Text)
    (b : Bool) :
    (plainOf (scan Mark.code? b (before ++ Sgr.code p ++ after))).length
      < (before ++ Sgr.code p ++ after).length := by
  induction before generalizing b with
  | nil =>
    rw [List.nil_append, scan_code?_code b hp, plainOf_mark]
    exact Nat.lt_of_le_of_lt (plainOf_scan_sublist _ _ _).length_le (length_lt_code_append p after)
  | cons c before ih =>
    rw [List.cons_append, List.cons_append]
    cases hm : Mark.code? b (c :: (before ++ Sgr.code p ++ after)) with
    | some m =>
      obtain ⟨q, rest, hq, rfl, hsource⟩ := code?_eq_some hm
      rw [hsource, scan_code?_code b hq, plainOf_mark]
      exact Nat.lt_of_le_of_lt (plainOf_scan_sublist _ _ _).length_le
        (length_lt_code_append q rest)
    | none =>
      rw [scan_plain hm, plainOf_plain]
      exact Nat.succ_lt_succ (ih _)

/-- A text that a scan for codes leaves as long as it was holds none. -/
theorem codeFree_of_length_le {t : Text} (h : t.length ≤ (dropMarks Mark.code? t).length) :
    CodeFree t := by
  rintro before p after hp rfl
  exact Nat.lt_irrefl _ (Nat.lt_of_le_of_lt h (length_dropCodes_lt hp before after false))

/-- The text is what one scan leaves of it, with codes put in. -/
theorem dropCodes_coded (b : Bool) (t : Text) : Coded (plainOf (scan Mark.code? b t)) t := by
  induction b, t using scan.induct Mark.code? with
  | case1 b =>
    rw [scan]
    exact .nil
  | case2 b c cs m hm ih =>
    obtain ⟨p, rest, hp, rfl, hsource⟩ := code?_eq_some hm
    rw [drop_source (m := .code p) hsource] at ih
    rw [hsource, scan_code?_code b hp, plainOf_mark, scan_code?_flag b false]
    exact .code hp ih
  | case3 b c cs hm ih =>
    rw [scan_plain hm, plainOf_plain]
    exact .char c ih

theorem removeCodes_codeFree (t : Text) : CodeFree (removeCodes t) := by
  unfold removeCodes
  induction t using clearMarks.induct Mark.code? with
  | case1 t rest hlt ih =>
    rw [clearMarks_eq, if_pos hlt]
    exact ih
  | case2 t rest hge =>
    rw [clearMarks_eq, if_neg hge]
    exact codeFree_of_length_le (Nat.le_of_not_lt hge)

theorem reduced_removeCodes (t : Text) : (removeCodes t).reduced = t.reduced := by
  unfold removeCodes
  induction t using clearMarks.induct Mark.code? with
  | case1 t rest hlt ih =>
    rw [clearMarks_eq, if_pos hlt]
    exact ih.trans (dropCodes_coded false t).reduced_eq.symm
  | case2 t rest hge => rw [clearMarks_eq, if_neg hge]

/-- **What is left without codes is the reduced text.** -/
theorem removeCodes_eq_reduced (t : Text) : removeCodes t = t.reduced := by
  rw [← reduced_removeCodes t, (removeCodes_codeFree t).reduced_eq]

/-- **Codes put into a text do not change what is left of it without codes.** -/
theorem Coded.removeCodes_congr {u t : Text} (h : Coded u t) : removeCodes t = removeCodes u := by
  rw [removeCodes_eq_reduced, removeCodes_eq_reduced, h.reduced_eq]

end Text

end TermMarkup
