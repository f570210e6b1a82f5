/-
  TermMarkup.Proofs.CleanText
  ───────────────────────────
  CLEANED TEXT.  Cleaning strips the tags and then removes the codes, each until
  none is left, but it does so once.  The head of a tag that codes part is no
  head when the tags are stripped, and one when the codes are gone.  That is the
  only way in which cleaned text comes to hold a tag, or an unterminated one: a
  cut of what is left without codes is made by a cut of the text, so what stands
  in the former stands in the latter with codes put in.

    • `removeCodes_split`, `removeCodes_join` — removing codes on both sides of a
      cut,
    • `holdsHead_removeCodes_iff` — the heads in a text without its codes,
    • `clean_clean_iff` — when cleaned text is clean.
-/
import TermMarkup.Proofs.TagHeads
import TermMarkup.Measure.Visible

namespace TermMarkup

open Relation (ReflTransGen)

namespace Text

/-! ## §1. Texts without codes. -/

theorem CodeFree.of_append {u v : Text} (h : CodeFree (u ++ v)) : CodeFree u ∧ CodeFree v := by
  constructor
  · intro before p after hp heq
    exact h before p (after ++ v) hp (by rw [heq]; simp)
  · intro before p after hp heq
    exact h (u ++ before) p after hp (by rw [heq]; simp)

/-- Text without the escape character in front starts no code. -/
theorem CodeFree.append {u v : Text} (hu : Sgr.escape ∉ u) (hv : CodeFree v) :
    CodeFree (u ++ v) := by
  induction u with
  | nil => exact hv
  | cons c u ih =>
    have hrest : CodeFree (u ++ v) := ih fun hmem => hu (List.mem_cons_of_mem _ hmem)
    intro before p after hp heq
    cases before with
    | nil => exact hu (List.mem_cons.mpr (.inl (List.cons.inj heq).1.symm))
    | cons d before => exact hrest before p after hp (List.cons.inj heq).2

/-- **A character that no code holds keeps the codes on both sides of it apart.** -/
theorem CodeFree.append_cons {u v : Text} {c : Char} (hu : CodeFree u) (hv : CodeFree v)
    (hc : isParamChar c = false ∧ c ∉ [Sgr.escape, '[', 'm']) : CodeFree (u ++ c :: v) := by
  intro before p after hp heq
  have hcode : c ∉ Sgr.code p := notMem_code hp hc
  rw [List.append_assoc] at heq
  -- the character stands before the code, in it or behind it
  rcases List.append_eq_append_iff.mp heq with ⟨z, -, hz⟩ | ⟨z, hbefore, hz⟩
  · cases z with
    | nil => exact hcode ((List.cons.inj hz).1 ▸ List.mem_cons_self)
    | cons d z => exact hv z p after hp ((List.cons.inj hz).2.trans (List.append_assoc _ _ _).symm)
  · rcases List.append_eq_append_iff.mp hz with ⟨w, hw, -⟩ | ⟨w, hw, hrest⟩
    · exact hu before p w hp (by rw [hbefore, hw, List.append_assoc])
    · cases w with
      | nil =>
        rw [List.append_nil] at hw
        exact hu before p [] hp (by rw [hbefore, hw, List.append_nil])
      | cons d w =>
        obtain ⟨rfl, -⟩ := List.cons.inj hrest
        exact hcode (hw ▸ List.mem_append_right z List.mem_cons_self)

/-- The head of a tag keeps the codes on both sides of it apart. -/
theorem CodeFree.append_head {u v : Text} {closes : Bool} {body : Text} (hu : CodeFree u)
    (hv : CodeFree v) (h : (Mark.tag closes body).Formed) :
    CodeFree (u ++ (tagStart closes ++ body) ++ v) := by
  have hescape : Sgr.escape ∉ tagStart closes ++ body := fun hmem =>
    escape_notMem_tag h.2 (List.mem_append_left ['}'] hmem)
  obtain ⟨tail, htail⟩ : ∃ tail, tagStart closes ++ body = '{' :: tail := by
    cases closes with
    | true => exact ⟨'/' :: body, rfl⟩
    | false => exact ⟨body, rfl⟩
  rw [htail] at hescape ⊢
  rw [List.append_assoc]
  exact hu.append_cons (.append (fun hmem => hescape (List.mem_cons_of_mem _ hmem)) hv)
    (by decide)

/-! ## §2. Codes on both sides of a cut. -/

/-- **What is left without codes is told by what is reached without codes.** -/
theorem removeCodes_of_reached {t u : Text} (h : ReflTransGen DeletesCode t u) (hu : CodeFree u) :
    removeCodes t = u := by
  have hsame : removeCodes t = removeCodes u := by
    clear hu
    induction h with
    | refl => rfl
    | tail _ hstep ih => exact ih.trans hstep.coded.removeCodes_congr
  rw [hsame, removeCodes_eq_reduced, hu.reduced_eq]

/-- **A cut of what is left is made by a cut of the text.** -/
theorem removeCodes_split {s a b : Text} (h : removeCodes s = a ++ b) :
    ∃ s₁ s₂, s = s₁ ++ s₂ ∧ removeCodes s₁ = a ∧ removeCodes s₂ = b := by
  have hreached : ReflTransGen DeletesCode s (a ++ b) := h ▸ removeCodes_reached s
  obtain ⟨ha, hb⟩ := CodeFree.of_append (h ▸ removeCodes_codeFree s)
  have hparts : ∃ s₁ s₂, s = s₁ ++ s₂ ∧ ReflTransGen DeletesCode s₁ a
      ∧ ReflTransGen DeletesCode s₂ b := by
    -- along the deletions, from the last one back: each lies on one side of the cut
    clear h
    induction hreached using ReflTransGen.head_induction_on with
    | refl => exact ⟨a, b, rfl, .refl, .refl⟩
    | head hstep _ ih =>
      obtain ⟨s₁, s₂, heq, h₁, h₂⟩ := ih
      obtain @⟨before, p, after, hp⟩ := hstep
      rcases List.append_eq_append_iff.mp heq with ⟨z, rfl, rfl⟩ | ⟨z, rfl, rfl⟩
      · exact ⟨before ++ Sgr.code p ++ z, s₂, by simp, .head (.mk before z hp) h₁, h₂⟩
      · exact ⟨s₁, z ++ Sgr.code p ++ after, by simp, h₁, .head (.mk z after hp) h₂⟩
  obtain ⟨s₁, s₂, rfl, h₁, h₂⟩ := hparts
  exact ⟨s₁, s₂, rfl, removeCodes_of_reached h₁ ha, removeCodes_of_reached h₂ hb⟩

/-- Codes of a part can be deleted inside the whole. -/
theorem reached_append {t u : Text} (h : ReflTransGen DeletesCode t u) (front back : Text) :
    ReflTransGen DeletesCode (front ++ t ++ back) (front ++ u ++ back) :=
  h.lift (fun v => front ++ v ++ back) fun _ _ hstep => hstep.append front back

/-- **Two texts leave what both of them leave**, if that holds no code. -/
theorem removeCodes_join {s₁ s₂ : Text} (h : CodeFree (removeCodes s₁ ++ removeCodes s₂)) :
    removeCodes (s₁ ++ s₂) = removeCodes s₁ ++ removeCodes s₂ := by
  -- first the codes of the first text, then those of the second
  have h₁ := reached_append (removeCodes_reached s₁) [] s₂
  have h₂ := reached_append (removeCodes_reached s₂) (removeCodes s₁) []
  simp only [List.nil_append, List.append_nil] at h₁ h₂
  exact removeCodes_of_reached (h₁.trans h₂) h

/-! ## §3. Heads in a text without its codes. -/

/-- A stretch of the text is the head of a tag once its codes are removed; without codes, what
stands before it does not end in an opening brace, and what follows it satisfies `P`. -/
def HoldsCodedHead (P : Text → Prop) (s : Text) : Prop :=
  ∃ before middle after closes body, s = before ++ middle ++ after
    ∧ (removeCodes before).getLast? ≠ some '{' ∧ (Mark.tag closes body).Formed
    ∧ removeCodes middle = tagStart closes ++ body ∧ P (removeCodes after)

/-- **The heads in a text without its codes** are those in the text, with codes in them or not. -/
theorem holdsHead_removeCodes_iff {P : Text → Prop} {s : Text} :
    (removeCodes s).HoldsHead P ↔ s.HoldsCodedHead P := by
  constructor
  · rintro ⟨before, closes, body, after, hbefore, hformed, hafter, hs⟩
    obtain ⟨front, s₂, rfl, hfront, rfl⟩ := removeCodes_split hs
    obtain ⟨s₀, s₁, rfl, rfl, hmiddle⟩ := removeCodes_split hfront
    exact ⟨s₀, s₁, s₂, closes, body, rfl, hbefore, hformed, hmiddle, hafter⟩
  · rintro ⟨before, middle, after, closes, body, rfl, hbefore, hformed, hmiddle, hafter⟩
    refine ⟨removeCodes before, closes, body, removeCodes after, hbefore, hformed, hafter, ?_⟩
    -- the head lets no code arise, so the three parts are joined as they are
    have hfree := (removeCodes_codeFree before).append_head (removeCodes_codeFree after) hformed
    have hfront : removeCodes (before ++ middle)
        = removeCodes before ++ (tagStart closes ++ body) := by
      rw [removeCodes_join (hmiddle.symm ▸ hfree.of_append.1), hmiddle]
    rw [removeCodes_join (hfront.symm ▸ hfree), hfront]

/-! ## §4. Cleaned text. -/

theorem stripTags_eq_self {t : Text} (h : t.tags = []) : stripTags t = t :=
  eq_of_reached (fun _ => DeletesTag.not_of_tags_eq_nil h) (stripTags_reached t)

theorem clean_eq_ok {t r : Text} (h : t.clean = .ok r) :
    t.checkTags = .ok () ∧ r = removeCodes (stripTags t) := by
  obtain ⟨stripped, hstripped, hr⟩ := bind_eq_ok.mp h
  obtain ⟨⟨⟩, hcheck, hstripped⟩ := bind_eq_ok.mp hstripped
  obtain ⟨-, -, hstripped⟩ := bind_eq_ok.mp hstripped
  obtain rfl := Except.ok.inj hstripped
  exact ⟨hcheck, (Except.ok.inj hr).symm⟩

/-- **Cleaning a text without codes gives it back** exactly if it has neither tags nor unterminated
ones. -/
theorem clean_eq_self_iff {r : Text} (hfree : CodeFree r) :
    r.clean = .ok r ↔ r.tags = [] ∧ r.checkTags = .ok () := by
  constructor
  · intro h
    obtain ⟨hcheck, hr⟩ := clean_eq_ok h
    -- what is stripped is at least what is left in the end, which is all
    have hcodes : (removeCodes (stripTags r)).Sublist (stripTags r) :=
      (clearMarks_sublist Mark.code? _).trans (plainOf_scan_sublist Mark.code? false _)
    have htags : (stripTags r).Sublist r :=
      (clearMarks_sublist Mark.tag? r).trans (plainOf_scan_sublist Mark.tag? false r)
    rw [← hr] at hcodes
    have hsame : stripTags r = r := htags.eq_of_length_le hcodes.length_le
    exact ⟨hsame ▸ stripTags_tags r, hcheck⟩
  · rintro ⟨htags, hcheck⟩
    have hremoved : removeTags r = .ok r := by
      refine bind_eq_ok.mpr ⟨(), hcheck, ?_⟩
      rw [stripTags_eq_self htags]
      exact bind_eq_ok.mpr ⟨(), hcheck, rfl⟩
    exact bind_eq_ok.mpr
      ⟨r, hremoved, congrArg Except.ok (removeCodes_of_reached .refl hfree)⟩

/-- **When cleaned text is clean.**  It never holds a code.  It holds no tag exactly if, in the text
without its tags, no closing brace follows a head with codes in it; and cleaning it again gives it
back exactly if neither a closing brace nor anything that cuts it off follows such a head. -/
theorem clean_clean_iff {t r : Text} (h : t.clean = .ok r) :
    r.hasCodes = false
      ∧ (r.tags = [] ↔ ¬(stripTags t).HoldsCodedHead (·.head? = some '}'))
      ∧ (r.clean = .ok r ↔ ¬(stripTags t).HoldsCodedHead fun after =>
          after.head? = some '}' ∨ cutsOff after = true) := by
  obtain ⟨-, rfl⟩ := clean_eq_ok h
  have hfree := removeCodes_codeFree (stripTags t)
  refine ⟨hasCodes_eq_false_iff.mpr hfree, ?_, ?_⟩
  · rw [tags_eq_nil_iff, holdsHead_removeCodes_iff]
  · rw [clean_eq_self_iff hfree, tags_eq_nil_iff, checkTags_eq_ok_iff, ← not_or, ← holdsHead_or,
      holdsHead_removeCodes_iff]

/-- Tags and codes that part each other, and a doubled brace: what is left is clean. -/
theorem clean_clean_iff_parted :
    Text.clean "{red}a\x1b[{bold}31mb\x7b\x7bc\x7d".toList = .ok "ab\x7b\x7bc\x7d".toList
      ∧ Text.hasCodes "ab\x7b\x7bc\x7d".toList = false
      ∧ Text.tags "ab\x7b\x7bc\x7d".toList = []
      ∧ ¬(stripTags "{red}a\x1b[{bold}31mb\x7b\x7bc\x7d".toList).HoldsCodedHead fun after =>
          after.head? = some '}' ∨ cutsOff after = true := by
  have h : Text.clean "{red}a\x1b[{bold}31mb\x7b\x7bc\x7d".toList
      = .ok "ab\x7b\x7bc\x7d".toList := by
    decide +kernel
  obtain ⟨hcodes, -, hclean⟩ := clean_clean_iff h
  exact ⟨h, hcodes, by decide +kernel, hclean.mp (by decide +kernel)⟩

/-- **Cleaned text may hold a tag**: one that a code parts. -/
theorem clean_leaves_tag :
    Text.clean "\x7b\x1b[mbold\x7d".toList = .ok "{bold}".toList
      ∧ Text.tags "{bold}".toList ≠ [] ∧ Text.clean "{bold}".toList = .ok [] := by
  decide +kernel

end Text

end TermMarkup
