/-
  TermMarkup.Proofs.TagHeads
  ──────────────────────────
  HEADS OF TAGS IN A TEXT.  A head is an opening brace that stands not behind
  another one, with a slash or without, and a body.  What follows the head
  decides what it is: a closing brace makes it a tag, another opening brace or
  the end leaves it unterminated, anything else makes it plain text.

    • `Text.HoldsHead` — a head that something of a kind follows,
    • `tags_eq_nil_iff` — a text has no tag exactly if no closing brace follows a
      head,
    • `checkTags_eq_ok_iff` — a text passes exactly if nothing that cuts a head
      off follows one.
-/
import TermMarkup.Proofs.Deletion

namespace TermMarkup

namespace Text

/-! ## §1. Heads. -/

/-- The head of a tag stands in the text, not behind an opening brace, and before text of `P`. -/
def HoldsHead (P : Text → Prop) (t : Text) : Prop :=
  ∃ before closes body after, before.getLast? ≠ some '{' ∧ (Mark.tag closes body).Formed
    ∧ P after ∧ t = before ++ (tagStart closes ++ body) ++ after

theorem holdsHead_or {P Q : Text → Prop} {t : Text} :
    t.HoldsHead (fun after => P after ∨ Q after) ↔ t.HoldsHead P ∨ t.HoldsHead Q := by
  constructor
  · rintro ⟨before, closes, body, after, hbefore, hformed, hafter, heq⟩
    exact hafter.imp (fun h => ⟨before, closes, body, after, hbefore, hformed, h, heq⟩)
      fun h => ⟨before, closes, body, after, hbefore, hformed, h, heq⟩
  · rintro (⟨before, closes, body, after, hbefore, hformed, hafter, heq⟩
      | ⟨before, closes, body, after, hbefore, hformed, hafter, heq⟩)
    · exact ⟨before, closes, body, after, hbefore, hformed, .inl hafter, heq⟩
    · exact ⟨before, closes, body, after, hbefore, hformed, .inr hafter, heq⟩

/-- **A text has no tags exactly if no closing brace follows a head.** -/
theorem tags_eq_nil_iff {t : Text} : t.tags = [] ↔ ¬t.HoldsHead (·.head? = some '}') := by
  constructor
  · rintro h ⟨before, closes, body, after, hbefore, hformed, hafter, rfl⟩
    obtain ⟨rest, rfl⟩ := List.head?_eq_some_iff.mp hafter
    refine DeletesTag.not_of_tags_eq_nil h (u := before ++ rest) ?_
    have hmk := DeletesTag.mk rest hbefore hformed
    simp only [Mark.source, List.append_assoc, List.singleton_append] at hmk ⊢
    exact hmk
  · intro h
    have hstuck : ∀ u, ¬DeletesTag t u := by
      rintro u @⟨before, closes, body, after, hbefore, hformed⟩
      refine h ⟨before, closes, body, '}' :: after, hbefore, hformed, rfl, ?_⟩
      simp [Mark.source]
    rw [← eq_of_reached hstuck (stripTags_reached t)]
    exact stripTags_tags t

/-! ## §2. Unterminated tags. -/

/-- One step of the search for an unterminated tag. -/
theorem unterminatedFrom?_cons_eq_none {b : Bool} {c : Char} {cs : Text} :
    unterminatedFrom? b (c :: cs) = none
      ↔ (∀ h, TagHead.read? b (c :: cs) = some h → cutsOff h.after = false)
        ∧ unterminatedFrom? (c == '{') cs = none := by
  rw [unterminatedFrom?]
  cases TagHead.read? b (c :: cs) with
  | none => exact ⟨fun h => ⟨fun _ hread => (nomatch hread), h⟩, fun h => h.2⟩
  | some head =>
    cases hcut : cutsOff head.after with
    | true =>
      refine ⟨fun h => ?_, fun h => absurd (h.1 head rfl) (by simp [hcut])⟩
      simp [hcut] at h
    | false =>
      have hfirst : ∀ h, some head = some h → cutsOff h.after = false := by
        rintro h ⟨⟩
        exact hcut
      simp only [hcut, Bool.false_eq_true, if_false]
      exact ⟨fun h => ⟨hfirst, h⟩, fun h => h.2⟩

/-- **The search for an unterminated tag looks at every place of the text.** -/
theorem unterminatedFrom?_eq_none_iff {b : Bool} {t : Text} :
    unterminatedFrom? b t = none ↔ ∀ before rest h, t = before ++ rest →
      TagHead.read? (endsInBrace b before) rest = some h → cutsOff h.after = false := by
  induction t generalizing b with
  | nil =>
    refine ⟨fun _ before rest h heq hread => ?_, fun _ => rfl⟩
    obtain ⟨-, rfl⟩ := List.append_eq_nil_iff.mp heq.symm
    -- no head is empty
    obtain ⟨-, -, hsource⟩ := read?_eq_some hread
    cases hc : h.closes <;> simp [TagHead.source, tagStart, hc] at hsource
  | cons c cs ih =>
    rw [unterminatedFrom?_cons_eq_none, ih]
    constructor
    · rintro ⟨hhere, hlater⟩ before rest h heq hread
      cases before with
      | nil =>
        obtain rfl : c :: cs = rest := heq
        exact hhere h hread
      | cons d before =>
        obtain ⟨rfl, rfl⟩ := List.cons.inj heq
        exact hlater before rest h rfl hread
    · intro h
      constructor
      · exact fun head => h [] (c :: cs) head rfl
      · rintro before rest head rfl
        exact h (c :: before) rest head rfl

/-- What cuts a head off does not belong to its body. -/
theorem not_isTagChar_of_cutsOff {after : Text} (h : cutsOff after = true) :
    after.head?.any isTagChar = false := by
  cases after with
  | nil => rfl
  | cons c after =>
    have hc : c = '\n' ∨ c = '{' := by
      simp only [cutsOff, reduceCtorEq, decide_false, Bool.false_or, Bool.or_eq_true,
        decide_eq_true_eq, List.cons.injEq, List.head?_cons, Option.some.injEq] at h
      exact h.imp And.left id
    show isTagChar c = false
    rcases hc with rfl | rfl <;> decide

/-- **A text passes the check exactly if nothing that cuts a head off follows one.** -/
theorem checkTags_eq_ok_iff {t : Text} :
    t.checkTags = .ok () ↔ ¬t.HoldsHead (cutsOff · = true) := by
  have hcheck : t.checkTags = .ok () ↔ unterminatedFrom? false t = none := by
    unfold checkTags
    cases unterminatedFrom? false t with
    | none => exact ⟨fun _ => rfl, fun _ => rfl⟩
    | some source => exact ⟨fun h => (nomatch h), fun h => (nomatch h)⟩
  rw [hcheck, unterminatedFrom?_eq_none_iff]
  constructor
  · rintro h ⟨before, closes, body, after, hbefore, hformed, hafter, rfl⟩
    have hread := read?_head hformed (not_isTagChar_of_cutsOff hafter)
    rw [← endsInBrace_eq_false_iff.mpr hbefore] at hread
    have hnot : cutsOff after = false := h before _ _ (List.append_assoc _ _ _) hread
    rw [hafter] at hnot
    exact nomatch hnot
  · intro h before rest head heq hread
    obtain ⟨hbefore, hbody, hsource⟩ := read?_eq_some hread
    refine Bool.eq_false_iff.mpr fun hcut => h ?_
    refine ⟨before, head.closes, head.body, head.after, endsInBrace_eq_false_iff.mp hbefore,
      ⟨read?_start hread, hbody⟩, hcut, ?_⟩
    rw [heq, hsource, List.append_assoc]
    rfl

end Text

end TermMarkup
