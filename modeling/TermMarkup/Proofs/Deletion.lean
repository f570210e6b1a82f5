/-
  TermMarkup.Proofs.Deletion
  ──────────────────────────
  DELETING MARKS ONE AT A TIME, in whatever order, has one result.

  For codes the reduced text tells: a code leaves no trace in it, so no deletion
  changes it, and a text without codes is its own reduced text.

  For tags two places never overlap, since a tag has one opening brace, its
  first character; and deleting a tag changes for no brace whether it stands
  behind another one, since what follows a tag stands behind its closing brace
  before and behind something else than an opening brace after.  So of two
  deletions each can still be made after the other.

    • `NormalForm` — the one free text that deletions lead to,
    • `removeCodes_unique` — a text without codes is that of its codes,
    • `DeletesTag.diamond` — two deletions of tags can be made in either order,
    • `stripTags_unique` — a text without tags is that of its tags.
-/
import TermMarkup.Proofs.VisibleText
import Mathlib.Logic.Relation

namespace TermMarkup

open Relation (ReflTransGen)

/-! ## §1. Normal forms. -/

/-- **The one normal form.**  The text `u` is free and is reached from `t`; whatever is reached from
`t` leads on to it, so it is the only text reached that is free; and no way of going on from `t` is
endless. -/
structure NormalForm (step : Text → Text → Prop) (Free : Text → Prop) (t u : Text) : Prop where
  free : Free u
  reached : ReflTransGen step t u
  leads : ∀ v, ReflTransGen step t v → ReflTransGen step v u
  only : ∀ v, ReflTransGen step t v → Free v → v = u
  ends : Acc (fun w v => step v w) t

section Settling

variable {step : Text → Text → Prop} {Free : Text → Prop}

/-- From a free text nothing else is reached. -/
theorem eq_of_reached {t u : Text} (hstuck : ∀ v, ¬step t v) (h : ReflTransGen step t u) :
    u = t := by
  rcases ReflTransGen.cases_head h with rfl | ⟨v, hv, -⟩
  · rfl
  · exact absurd hv (hstuck v)

/-- **A result that no step changes is the one normal form.** -/
theorem NormalForm.of_keeps {result : Text → Text} (hfree : ∀ t, Free (result t))
    (hreached : ∀ t, ReflTransGen step t (result t))
    (hkeeps : ∀ t u, step t u → result t = result u) (hstuck : ∀ t u, Free t → ¬step t u)
    (hshorter : ∀ t u, step t u → u.length < t.length) (t : Text) :
    NormalForm step Free t (result t) := by
  have hsame : ∀ v, ReflTransGen step t v → result t = result v := by
    intro v hv
    induction hv with
    | refl => rfl
    | tail _ hstep ih => exact ih.trans (hkeeps _ _ hstep)
  have hleads : ∀ v, ReflTransGen step t v → ReflTransGen step v (result t) := by
    intro v hv
    rw [hsame v hv]
    exact hreached v
  refine ⟨hfree t, hreached t, hleads, fun v hv hv' => ?_, ?_⟩
  -- a free text leads to the result too, but to nothing other than itself
  · exact (eq_of_reached (fun w => hstuck v w hv') (hleads v hv)).symm
  · exact Subrelation.accessible (fun {w v} h => hshorter v w h)
      ((measure List.length).wf.apply t)

end Settling

namespace Text

/-! ## §2. What scan after scan leaves. -/

theorem mem_marksOf {ps : List Piece} {m : Mark} : m ∈ marksOf ps ↔ Piece.mark m ∈ ps := by
  constructor
  · intro h
    obtain ⟨p, hp, heq⟩ := List.mem_filterMap.mp h
    cases p with
    | plain c => exact nomatch heq
    | mark m' => exact Option.some.inj heq ▸ hp
  · exact fun h => List.mem_filterMap.mpr ⟨_, h, rfl⟩

/-- Each mark among pieces takes characters along. -/
theorem length_plainOf (ps : List Piece) :
    (plainOf ps).length + (marksOf ps).length ≤ (ps.flatMap Piece.source).length := by
  induction ps with
  | nil => exact Nat.le_refl 0
  | cons p ps ih =>
    rw [List.flatMap_cons, List.length_append]
    cases p with
    | plain c =>
      show (plainOf ps).length + 1 + (marksOf ps).length ≤ 1 + _
      omega
    | mark m =>
      have hpos := List.length_pos_iff.mpr (source_ne_nil m)
      show (plainOf ps).length + ((marksOf ps).length + 1) ≤ m.source.length + _
      omega

/-- A scan that takes nothing finds no mark. -/
theorem no_mark_of_dropMarks_eq {read : Recognizer} (hread : read.Finds) {t : Text}
    (h : dropMarks read t = t) : ∀ m, Piece.mark m ∉ pieces read t := by
  intro m hm
  have hlength := length_plainOf (pieces read t)
  -- the pieces make up the text, and so do the plain ones alone
  rw [show (pieces read t).flatMap Piece.source = t from scan_source hread false t,
    show plainOf (pieces read t) = t from h] at hlength
  have hpos : 0 < (marksOf (pieces read t)).length :=
    List.length_pos_of_mem (mem_marksOf.mpr hm)
  omega

/-- Dropping marks from what is clear of them takes nothing. -/
theorem dropMarks_clearMarks (read : Recognizer) (t : Text) :
    dropMarks read (clearMarks read t) = clearMarks read t := by
  induction t using clearMarks.induct read with
  | case1 t rest hlt ih =>
    rw [clearMarks_eq, if_pos hlt]
    exact ih
  | case2 t rest hge =>
    rw [clearMarks_eq, if_neg hge]
    exact dropMarks_eq_of_not_lt hge

/-- What one scan after another reaches. -/
theorem clearMarks_reached {read : Recognizer} {step : Text → Text → Prop}
    (h : ∀ t, ReflTransGen step t (dropMarks read t)) (t : Text) :
    ReflTransGen step t (clearMarks read t) := by
  induction t using clearMarks.induct read with
  | case1 t rest hlt ih =>
    rw [clearMarks_eq, if_pos hlt]
    exact (h t).trans ih
  | case2 t rest hge =>
    rw [clearMarks_eq, if_neg hge]

/-! ## §3. Deleting codes. -/

/-- One code is deleted from the first text, which leaves the second. -/
inductive DeletesCode : Text → Text → Prop
  | mk (before : Text) {p : Text} (after : Text) :
      p.all isParamChar = true → DeletesCode (before ++ Sgr.code p ++ after) (before ++ after)

namespace DeletesCode

variable {t u : Text}

theorem coded (h : DeletesCode t u) : Coded u t := by
  obtain ⟨before, after, hp⟩ := h
  rw [List.append_assoc]
  exact (Coded.refl before).append (.code hp (.refl after))

theorem length_lt (h : DeletesCode t u) : u.length < t.length := by
  obtain @⟨before, p, after, hp⟩ := h
  have hlt := length_lt_code_append p after
  rw [List.append_assoc, List.length_append, List.length_append]
  omega

/-- What stands before and behind stays. -/
theorem append (h : DeletesCode t u) (front back : Text) :
    DeletesCode (front ++ t ++ back) (front ++ u ++ back) := by
  obtain ⟨before, after, hp⟩ := h
  have hmk := mk (front ++ before) (after ++ back) hp
  simp only [List.append_assoc] at hmk ⊢
  exact hmk

end DeletesCode

/-- Text with codes put in leads to the text. -/
theorem Coded.reached {u t : Text} (h : Coded u t) : ReflTransGen DeletesCode t u := by
  induction h with
  | nil => exact .refl
  | @char c u t _ ih =>
    refine ih.lift ([c] ++ ·) fun v w hvw => ?_
    have h := hvw.append [c] []
    rw [List.append_nil, List.append_nil] at h
    exact h
  | @code p u t hp _ ih => exact .head (.mk [] t hp) ih

/-- A text without codes has no codes put in. -/
theorem Coded.eq_of_codeFree {u t : Text} (h : Coded u t) (ht : CodeFree t) : u = t := by
  induction h with
  | nil => rfl
  | @char c u t _ ih =>
    have hrest : CodeFree t := fun before p after hp heq =>
      ht (c :: before) p after hp (by rw [heq]; rfl)
    rw [ih hrest]
  | @code p u t hp _ _ => exact absurd rfl (ht [] p t hp)

/-- **A scan finds no code exactly if none stands in the text.** -/
theorem hasCodes_eq_false_iff {t : Text} : t.hasCodes = false ↔ CodeFree t := by
  have hmarks : t.hasCodes = false ↔ ∀ m, Piece.mark m ∉ pieces Mark.code? t := by
    unfold hasCodes
    rw [Bool.not_eq_false', List.isEmpty_iff, List.eq_nil_iff_forall_not_mem]
    exact forall_congr' fun m => not_congr mem_marksOf
  rw [hmarks]
  constructor
  · intro hnone
    refine codeFree_of_length_le (Nat.le_of_eq ?_)
    rw [dropMarks_eq_self code?_finds hnone]
  · intro hfree
    exact no_mark_of_dropMarks_eq code?_finds ((dropCodes_coded false t).eq_of_codeFree hfree)

theorem removeCodes_reached (t : Text) : ReflTransGen DeletesCode t (removeCodes t) :=
  clearMarks_reached (fun t => (dropCodes_coded false t).reached) t

/-- **Removing codes gives the one text without codes** that deleting codes one at a time leads to;
hence a code put into a text does not change what is left without codes. -/
theorem removeCodes_unique :
    (∀ t : Text, NormalForm DeletesCode (fun u => u.hasCodes = false) t (removeCodes t))
      ∧ ∀ before p after, p.all isParamChar = true →
          removeCodes (before ++ Sgr.code p ++ after) = removeCodes (before ++ after) := by
  refine ⟨NormalForm.of_keeps (fun t => ?_) removeCodes_reached (fun t u h => ?_)
    (fun t u ht h => ?_) (fun t u h => h.length_lt), fun before p after hp => ?_⟩
  · exact hasCodes_eq_false_iff.mpr (removeCodes_codeFree t)
  · exact h.coded.removeCodes_congr
  · obtain ⟨before, after, hp⟩ := h
    exact hasCodes_eq_false_iff.mp ht before _ after hp rfl
  · exact (DeletesCode.mk before after hp).coded.removeCodes_congr

/-- A code parts another one, which only its deletion makes whole. -/
theorem removeCodes_unique_nested :
    "1".toList.all isParamChar = true
      ∧ removeCodes ("a\x1b[3".toList ++ Sgr.code "1".toList ++ "1mb".toList) = "ab".toList := by
  have hp : "1".toList.all isParamChar = true := by decide
  refine ⟨hp, ?_⟩
  rw [removeCodes_unique.2 _ _ _ hp]
  decide +kernel

/-! ## §4. Deleting tags. -/

/-- One tag is deleted from the first text, which leaves the second.  The tag does not stand behind
an opening brace. -/
inductive DeletesTag : Text → Text → Prop
  | mk {before : Text} {closes : Bool} {body : Text} (after : Text) :
      before.getLast? ≠ some '{' → (Mark.tag closes body).Formed →
      DeletesTag (before ++ (Mark.tag closes body).source ++ after) (before ++ after)

/-- Whether an opening brace stands last; the flag says it of what stands before the text. -/
def endsInBrace (afterBrace : Bool) (t : Text) : Bool := t.foldl (fun _ c => c == '{') afterBrace

theorem endsInBrace_append (b : Bool) (s t : Text) :
    endsInBrace b (s ++ t) = endsInBrace (endsInBrace b s) t := List.foldl_append

theorem endsInBrace_append_singleton (b : Bool) (t : Text) (c : Char) :
    endsInBrace b (t ++ [c]) = (c == '{') := endsInBrace_append b t [c]

theorem endsInBrace_eq_false_iff {t : Text} :
    endsInBrace false t = false ↔ t.getLast? ≠ some '{' := by
  rcases List.eq_nil_or_concat t with rfl | ⟨t, c, rfl⟩
  · exact ⟨fun _ h => (nomatch h), fun _ => rfl⟩
  · rw [List.concat_eq_append, endsInBrace_append_singleton, List.getLast?_concat]
    simp

/-- Where a scan finds no mark, none stands at any place of the text. -/
theorem read_of_no_mark {read : Recognizer} {b : Bool} {before rest : Text} (hrest : rest ≠ [])
    (h : ∀ m, Piece.mark m ∉ scan read b (before ++ rest)) :
    read (endsInBrace b before) rest = none := by
  induction before generalizing b with
  | nil =>
    cases rest with
    | nil => exact absurd rfl hrest
    | cons c cs =>
      cases hm : read b (c :: cs) with
      | none => exact hm
      | some m =>
        rw [List.nil_append, scan, hm] at h
        exact absurd List.mem_cons_self (h m)
  | cons c before ih =>
    rw [List.cons_append] at h
    cases hm : read b (c :: (before ++ rest)) with
    | none =>
      rw [scan_plain hm] at h
      exact ih fun m hmem => h m (List.mem_cons_of_mem _ hmem)
    | some m =>
      rw [scan, hm] at h
      exact absurd List.mem_cons_self (h m)

/-- The only opening brace of a tag is its first character. -/
theorem exists_tagTail {closes : Bool} {body : Text} (h : (Mark.tag closes body).Formed) :
    ∃ tail, (Mark.tag closes body).source = '{' :: tail ∧ '{' ∉ tail := by
  have hbody : '{' ∉ body := fun hmem =>
    absurd (List.all_eq_true.mp h.2 _ hmem) (by decide)
  cases closes with
  | true => exact ⟨'/' :: (body ++ ['}']), rfl, by simp [hbody]⟩
  | false => exact ⟨body ++ ['}'], rfl, by simp [hbody]⟩

namespace DeletesTag

variable {t u v : Text}

theorem length_lt (h : DeletesTag t u) : u.length < t.length := by
  obtain @⟨before, closes, body, after, -, -⟩ := h
  have hpos := List.length_pos_iff.mpr (source_ne_nil (.tag closes body))
  simp only [List.length_append]
  omega

/-- From a text without tags none is deleted. -/
theorem not_of_tags_eq_nil (ht : t.tags = []) : ¬DeletesTag t u := by
  rintro @⟨before, closes, body, after, hbefore, hformed⟩
  have hnone := no_mark_of_tags_eq_nil ht
  unfold pieces at hnone
  rw [List.append_assoc] at hnone
  have hne : (Mark.tag closes body).source ++ after ≠ [] :=
    List.append_ne_nil_of_left_ne_nil (source_ne_nil _) _
  have hread := read_of_no_mark hne hnone
  rw [endsInBrace_eq_false_iff.mpr hbefore, tag?_tag hformed after] at hread
  exact nomatch hread

end DeletesTag

/-- **Two tags of a text stand at one place or apart**: where one tag starts `x` after the start of
another one, either nothing or all of the other one lies between. -/
theorem tags_apart {closes₁ closes₂ : Bool} {body₁ body₂ after₁ after₂ x : Text}
    (h₁ : (Mark.tag closes₁ body₁).Formed) (h₂ : (Mark.tag closes₂ body₂).Formed)
    (h : (Mark.tag closes₁ body₁).source ++ after₁
      = x ++ ((Mark.tag closes₂ body₂).source ++ after₂)) :
    (x = [] ∧ after₁ = after₂)
      ∨ ∃ z, x = (Mark.tag closes₁ body₁).source ++ z
          ∧ after₁ = z ++ ((Mark.tag closes₂ body₂).source ++ after₂) := by
  rcases List.append_eq_append_iff.mp h with ⟨z, hx, hafter⟩ | ⟨z, hsource, hafter⟩
  · exact .inr ⟨z, hx, hafter⟩
  cases x with
  | nil =>
    -- at one place the recogniser finds one tag
    have hfirst := tag?_tag h₁ after₁
    have hsecond := tag?_tag h₂ after₂
    rw [h, List.nil_append, hsecond] at hfirst
    rw [Option.some.inj hfirst, List.nil_append] at h
    exact .inl ⟨rfl, List.append_cancel_left h⟩
  | cons c x =>
    cases z with
    | nil =>
      rw [List.append_nil] at hsource
      exact .inr ⟨[], by rw [hsource, List.append_nil], hafter.symm⟩
    | cons d z =>
      -- the opening brace of the second tag would stand inside the first one
      obtain ⟨tail₁, htail₁, hbrace⟩ := exists_tagTail h₁
      obtain ⟨tail₂, htail₂, -⟩ := exists_tagTail h₂
      rw [htail₁] at hsource
      rw [htail₂] at hafter
      obtain ⟨-, rfl⟩ := List.cons.inj hsource
      obtain ⟨rfl, -⟩ := List.cons.inj hafter
      exact absurd (List.mem_append_right x List.mem_cons_self) hbrace

/-- What stands behind a deleted tag stands behind a brace only if it did before. -/
theorem getLast?_append_ne {before x z : Text} (hbefore : before.getLast? ≠ some '{')
    (h : (before ++ (x ++ z)).getLast? ≠ some '{') : (before ++ z).getLast? ≠ some '{' := by
  rw [List.getLast?_append, List.getLast?_append] at h
  rw [List.getLast?_append]
  cases hz : z.getLast? with
  | none => exact hbefore
  | some c =>
    rw [hz] at h
    exact h

/-- Of two tags the one that stands not behind the other can be deleted after it, and before. -/
theorem DeletesTag.diamond_of_before {closes₁ closes₂ : Bool}
    {body₁ body₂ before x after₁ after₂ : Text}
    (h₁ : (Mark.tag closes₁ body₁).Formed) (h₂ : (Mark.tag closes₂ body₂).Formed)
    (hbefore₁ : before.getLast? ≠ some '{') (hbefore₂ : (before ++ x).getLast? ≠ some '{')
    (h : (Mark.tag closes₁ body₁).source ++ after₁
      = x ++ ((Mark.tag closes₂ body₂).source ++ after₂)) :
    before ++ after₁ = before ++ x ++ after₂
      ∨ ∃ w, DeletesTag (before ++ after₁) w ∧ DeletesTag (before ++ x ++ after₂) w := by
  rcases tags_apart h₁ h₂ h with ⟨rfl, rfl⟩ | ⟨z, rfl, rfl⟩
  · exact .inl (by rw [List.append_nil])
  · refine .inr ⟨before ++ z ++ after₂, ?_, ?_⟩
    · have hsecond := DeletesTag.mk after₂ (getLast?_append_ne hbefore₁ hbefore₂) h₂
      simp only [List.append_assoc] at hsecond ⊢
      exact hsecond
    · have hfirst := DeletesTag.mk (z ++ after₂) hbefore₁ h₁
      simp only [List.append_assoc] at hfirst ⊢
      exact hfirst

/-- **Two deletions of tags can be made in either order.** -/
theorem DeletesTag.diamond {t u v : Text} (hu : DeletesTag t u) (hv : DeletesTag t v) :
    u = v ∨ ∃ w, DeletesTag u w ∧ DeletesTag v w := by
  obtain @⟨before₁, closes₁, body₁, after₁, hbefore₁, h₁⟩ := hu
  generalize ht : before₁ ++ (Mark.tag closes₁ body₁).source ++ after₁ = t at hv
  obtain @⟨before₂, closes₂, body₂, after₂, hbefore₂, h₂⟩ := hv
  rw [List.append_assoc, List.append_assoc before₂] at ht
  -- by the tag whose place is the first of the two
  rcases List.append_eq_append_iff.mp ht with ⟨x, rfl, hx⟩ | ⟨x, rfl, hx⟩
  · exact diamond_of_before h₁ h₂ hbefore₁ hbefore₂ hx
  · rcases diamond_of_before h₂ h₁ hbefore₂ hbefore₁ hx with heq | ⟨w, hv, hu⟩
    · exact .inl heq.symm
    · exact .inr ⟨w, hu, hv⟩

/-- What one scan for tags leaves is reached by deleting them one at a time. -/
theorem scan_tag?_reached (before : Text) (b : Bool) (t : Text)
    (hb : endsInBrace false before = b) :
    ReflTransGen DeletesTag (before ++ t) (before ++ plainOf (scan Mark.tag? b t)) := by
  induction b, t using scan.induct Mark.tag? generalizing before with
  | case1 b =>
    rw [scan]
    exact .refl
  | case2 b c cs m hm ih =>
    obtain ⟨rfl, closes, body, rest, rfl, hformed, hsource⟩ := tag?_eq_some_iff.mp hm
    rw [drop_source hsource] at ih
    rw [hsource] at hm ⊢
    rw [scan_mark hm, plainOf_mark, ← List.append_assoc]
    exact .head (.mk rest (endsInBrace_eq_false_iff.mp hb) hformed) (ih before hb)
  | case3 b c cs hm ih =>
    have hrest := ih (before ++ [c]) (endsInBrace_append_singleton false before c)
    rw [scan_plain hm, plainOf_plain]
    simpa using hrest

theorem stripTags_reached (t : Text) : ReflTransGen DeletesTag t (stripTags t) :=
  clearMarks_reached (fun t => scan_tag?_reached [] false t rfl) t

theorem stripTags_tags (t : Text) : (stripTags t).tags = [] := by
  -- each tag takes an opening brace along, so one more scan tells how many are left
  have hcount := count_brace_dropTags (stripTags t)
  rw [show dropMarks Mark.tag? (stripTags t) = stripTags t from dropMarks_clearMarks Mark.tag? t]
    at hcount
  exact List.length_eq_zero_iff.mp (by omega)

/-- **Deleting a tag does not change what is left without tags.** -/
theorem DeletesTag.stripTags_eq {t u : Text} (h : DeletesTag t u) : stripTags t = stripTags u := by
  have hjoin := Relation.church_rosser (r := DeletesTag)
    (fun t u v hu hv => by
      rcases hu.diamond hv with rfl | ⟨w, huw, hvw⟩
      · exact ⟨u, .refl, .refl⟩
      · exact ⟨w, .single huw, .single hvw⟩)
    (stripTags_reached t) (.head h (stripTags_reached u))
  obtain ⟨w, ht, hu⟩ := hjoin
  -- both are without tags, so neither goes on to where they meet
  have hstuck : ∀ t v, ¬DeletesTag (stripTags t) v :=
    fun t _ => not_of_tags_eq_nil (stripTags_tags t)
  rw [← eq_of_reached (hstuck t) ht, eq_of_reached (hstuck u) hu]

/-- **Stripping tags gives the one text without tags** that deleting tags one at a time leads to. -/
theorem stripTags_unique (t : Text) :
    NormalForm DeletesTag (fun u => u.tags = []) t (stripTags t) :=
  NormalForm.of_keeps stripTags_tags stripTags_reached (fun _ _ h => h.stripTags_eq)
    (fun _ _ h => DeletesTag.not_of_tags_eq_nil h) (fun _ _ h => h.length_lt) t

end Text

end TermMarkup
