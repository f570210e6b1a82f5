/-
  TermMarkup.Proofs.LineHeads
  ───────────────────────────
  UNTERMINATED TAGS AND THE LINES AFTER THEM.  The head of a tag lies on one line,
  so a newline between two texts makes no new head and takes none away.  But what
  follows a head can change: a head that the end of its text cuts off is cut off
  no longer when another line follows, since a newline inside a text is no end of
  it.  Only a head that an opening brace cuts off stays unterminated for good.

    • `holdsHead_newline` — the heads of two texts with a newline between them,
    • `checkTags_newline_iff` — when such texts are refused,
    • `newline_hides_head` — a refused text that passes with a line after it.
-/
import TermMarkup.Proofs.TagHeads

namespace TermMarkup

namespace Text

/-! ## §1. Heads on both sides of a newline. -/

/-- The head of a tag lies on one line. -/
theorem newline_notMem_head {closes : Bool} {body : Text} (h : (Mark.tag closes body).Formed) :
    '\n' ∉ tagStart closes ++ body := by
  intro hmem
  rcases List.mem_append.mp hmem with hmem | hmem
  · cases closes <;> simp [tagStart] at hmem
  · exact absurd (List.all_eq_true.mp h.2 _ hmem) (by decide)

/-- What stands on a line ends in an opening brace or not, whatever lines stand before it. -/
theorem getLast?_newline {t z : Text} :
    (t ++ '\n' :: z).getLast? = some '{' ↔ z.getLast? = some '{' := by
  rw [List.getLast?_append, List.getLast?_cons]
  cases z.getLast? with
  | none => simp
  | some c => exact Iff.rfl

/-- **The heads of two texts with a newline between them** are those of the first, which the newline
and the second text now follow, and those of the second. -/
theorem holdsHead_newline {P : Text → Prop} {t u : Text} :
    (t ++ '\n' :: u).HoldsHead P
      ↔ t.HoldsHead (fun after => P (after ++ '\n' :: u)) ∨ u.HoldsHead P := by
  constructor
  · rintro ⟨before, closes, body, after, hbefore, hformed, hafter, heq⟩
    have hline := newline_notMem_head hformed
    generalize hhead : tagStart closes ++ body = head at heq hline
    rw [List.append_assoc] at heq
    rcases List.append_eq_append_iff.mp heq with ⟨z, rfl, hz⟩ | ⟨z, rfl, hz⟩
    · -- the newline stands before the head, which is not empty
      right
      cases z with
      | nil =>
        subst hhead
        cases closes <;> exact absurd (List.cons.inj hz).1 (by decide)
      | cons c z =>
        obtain ⟨rfl, rfl⟩ := List.cons.inj hz
        refine ⟨z, closes, body, after, fun hlast => hbefore (getLast?_newline.mpr hlast),
          hformed, hafter, ?_⟩
        rw [hhead, List.append_assoc]
        rfl
    · -- the head begins before the newline, so it ends before it
      left
      rcases List.append_eq_append_iff.mp hz with ⟨z', rfl, rfl⟩ | ⟨z', rfl, hz'⟩
      · refine ⟨before, closes, body, z', hbefore, hformed, hafter, ?_⟩
        rw [hhead, List.append_assoc]
      · cases z' with
        | nil =>
          rw [List.append_nil] at hhead
          obtain rfl : '\n' :: u = after := hz'
          exact ⟨before, closes, body, [], hbefore, hformed, hafter, by rw [hhead, List.append_nil]⟩
        | cons c z' =>
          obtain ⟨rfl, -⟩ := List.cons.inj hz'
          exact absurd (List.mem_append_right z List.mem_cons_self) hline
  · rintro (⟨before, closes, body, after, hbefore, hformed, hafter, rfl⟩
      | ⟨before, closes, body, after, hbefore, hformed, hafter, rfl⟩)
    · exact ⟨before, closes, body, after ++ '\n' :: u, hbefore, hformed, hafter,
        List.append_assoc _ _ _⟩
    · refine ⟨t ++ '\n' :: before, closes, body, after,
        fun hlast => hbefore (getLast?_newline.mp hlast), hformed, hafter, ?_⟩
      simp only [List.append_assoc, List.cons_append]

/-! ## §2. Refused texts. -/

/-- A newline that more text follows cuts nothing off. -/
theorem cutsOff_newline_iff {after u : Text} :
    cutsOff (after ++ '\n' :: u) = true ↔ after.head? = some '{' ∨ (after = [] ∧ u = []) := by
  cases after with
  | nil => simp [cutsOff]
  | cons c after => simp [cutsOff]

/-- A text passes, or a fault names an unterminated tag of it. -/
theorem checkTags_cases (t : Text) :
    t.checkTags = .ok () ∨ ∃ source, t.checkTags = .error (.unterminatedTag source) := by
  unfold checkTags
  cases unterminatedFrom? false t with
  | none => exact .inl rfl
  | some source => exact .inr ⟨source, rfl⟩

/-- **A text is refused exactly if something that cuts a head off follows one.** -/
theorem checkTags_error_iff {t : Text} :
    (∃ source, t.checkTags = .error (.unterminatedTag source)) ↔ t.HoldsHead (cutsOff · = true) := by
  rw [← not_iff_not, ← checkTags_eq_ok_iff]
  rcases checkTags_cases t with h | ⟨source, h⟩
  · simp [h]
  · simp [h]

/-- **When two texts with a newline between them are refused**: if an opening brace cuts a head of
the first off; if the end of the first cuts a head off and no second text follows; or if the second
is refused by itself. -/
theorem checkTags_newline_iff {t u : Text} :
    (∃ source, (t ++ '\n' :: u).checkTags = .error (.unterminatedTag source))
      ↔ t.HoldsHead (·.head? = some '{') ∨ (t.HoldsHead (· = []) ∧ u = [])
        ∨ ∃ source, u.checkTags = .error (.unterminatedTag source) := by
  have hlast : t.HoldsHead (fun after => after = [] ∧ u = []) ↔ t.HoldsHead (· = []) ∧ u = [] := by
    constructor
    · rintro ⟨before, closes, body, after, hbefore, hformed, ⟨hafter, hu⟩, heq⟩
      exact ⟨⟨before, closes, body, after, hbefore, hformed, hafter, heq⟩, hu⟩
    · rintro ⟨⟨before, closes, body, after, hbefore, hformed, hafter, heq⟩, hu⟩
      exact ⟨before, closes, body, after, hbefore, hformed, ⟨hafter, hu⟩, heq⟩
  rw [checkTags_error_iff, checkTags_error_iff, holdsHead_newline]
  simp only [cutsOff_newline_iff]
  rw [holdsHead_or, hlast, or_assoc]

/-- **A line that follows can hide an unterminated tag**: one that only the end of its text cuts
off. -/
theorem newline_hides_head :
    Text.checkTags "\x7bbold".toList = .error (.unterminatedTag "\x7bbold".toList)
      ∧ Text.checkTags "\x7bbold\nx".toList = .ok () := by
  decide +kernel

end Text

end TermMarkup
