/-
  TermMarkup.Proofs.ColorLanguage
  ───────────────────────────────
  WHAT IS A COLOR.  The question has an answer for every text but those that look
  like an index and cannot be read as one: a run of characters that look like
  digits, some of them not decimal, or more decimal digits than are read.  On
  these it fails with the fault of the reader.  For all others it decides whether
  the text has one of the four forms of colors, in which blanks may stand around
  the components of a triple and a newline at the end.

    • `HasForm`, `IsPlain` — the forms of colors, with blanks and without,
    • `Unreadable`, `digitFault` — the texts without an answer, and the fault,
    • `hasForm_iff_isPlain` — where no blank is, the forms are the plain ones,
    • `isColor_of_unreadable`, `isColor_of_readable` — the answer,
    • `isColor_decides` — all of it together, on both grounds.
-/
import TermMarkup.Proofs.ColorWords

namespace TermMarkup

namespace ColorSpec

/-! ## §1. Forms. -/

/-- The text is a color in one of its forms. -/
inductive HasForm : Text → Prop
  | name {spec : Text} : isName spec = true → HasForm spec
  | index {digits : Text} :
      digits ≠ [] → digits.IsDecimal → digits.number ≤ maxComponent → HasForm digits
  | triple {r g b spec : Text} : IsTripleOf r g b spec → HasForm spec
  | hex {digits tail : Text} : (∀ c ∈ digits, Hexadecimal.isDigit c = true) →
      (digits.length = 3 ∨ digits.length = 6) → atEnd tail = true → HasForm ('#' :: digits ++ tail)

/-- A component of a triple: decimal digits and points. -/
def IsComponent (t : Text) : Prop := t ≠ [] ∧ ∀ c ∈ t, isComponentChar c = true

/-- The text is a color in one of its forms, with nothing between the parts and behind them. -/
inductive IsPlain : Text → Prop
  | name {spec : Text} : isName spec = true → IsPlain spec
  | index {digits : Text} :
      digits ≠ [] → digits.IsDecimal → digits.number ≤ maxComponent → IsPlain digits
  | triple {r g b : Text} : IsComponent r → IsComponent g → IsComponent b →
      IsPlain ('(' :: r ++ ',' :: g ++ ',' :: b ++ [')'])
  | hex {digits : Text} : (∀ c ∈ digits, Hexadecimal.isDigit c = true) →
      (digits.length = 3 ∨ digits.length = 6) → IsPlain ('#' :: digits)

/-- A component is a field of its own. -/
theorem IsComponent.holds {t : Text} (h : IsComponent t) : Holds t t :=
  ⟨⟨[], [], (List.append_nil t).symm, fun _ hc => (nomatch hc), fun _ hc => nomatch hc⟩, h.1, h.2⟩

/-- A field without blanks is the component in it. -/
theorem Holds.isComponent {field digits : Text} (h : Holds field digits)
    (hblank : ∀ c ∈ field, isBlank c = false) : field = digits ∧ IsComponent digits := by
  obtain ⟨⟨before, after, rfl, hbefore, hafter⟩, hne, hchars⟩ := h
  have hnone : ∀ t : Text, (∀ c ∈ t, isBlank c = true) → (∀ c ∈ t, isBlank c = false) → t = [] := by
    intro t hall hnot
    refine List.eq_nil_iff_forall_not_mem.mpr fun c hc => ?_
    exact nomatch (hall c hc).symm.trans (hnot c hc)
  have hleft := hnone before hbefore fun c hc => hblank c (by simp [hc])
  have hright := hnone after hafter fun c hc => hblank c (by simp [hc])
  rw [hleft, hright, List.append_nil]
  exact ⟨rfl, hne, hchars⟩

theorem tail_eq_nil {tail : Text} (h : atEnd tail = true)
    (hblank : ∀ c ∈ tail, isBlank c = false) : tail = [] := by
  rcases Bool.or_eq_true_iff.mp h with h | h
  · exact of_decide_eq_true h
  · obtain rfl := of_decide_eq_true h
    exact absurd (hblank '\n' List.mem_cons_self) (by decide)

/-- Plain forms are forms. -/
theorem IsPlain.hasForm {spec : Text} (h : IsPlain spec) : HasForm spec := by
  cases h with
  | name h => exact .name h
  | index hne hdecimal hle => exact .index hne hdecimal hle
  | triple hr hg hb =>
    exact .triple ⟨_, _, _, [], rfl, hr.holds, hg.holds, hb.holds, rfl⟩
  | @hex digits hdigits hlength =>
    have hform : HasForm ('#' :: digits ++ []) := .hex hdigits hlength rfl
    rwa [List.append_nil] at hform

/-- **Where no blank is, the forms are the plain ones.** -/
theorem hasForm_iff_isPlain {spec : Text} (hblank : ∀ c ∈ spec, isBlank c = false) :
    HasForm spec ↔ IsPlain spec := by
  refine ⟨fun h => ?_, IsPlain.hasForm⟩
  cases h with
  | name h => exact .name h
  | index hne hdecimal hle => exact .index hne hdecimal hle
  | triple h =>
    obtain ⟨x, y, z, tail, rfl, hx, hy, hz, hend⟩ := h
    obtain ⟨rfl, hr⟩ := hx.isComponent fun c hc => hblank c (by simp [hc])
    obtain ⟨rfl, hg⟩ := hy.isComponent fun c hc => hblank c (by simp [hc])
    obtain ⟨rfl, hb⟩ := hz.isComponent fun c hc => hblank c (by simp [hc])
    obtain rfl := tail_eq_nil hend fun c hc => hblank c (by simp [hc])
    exact .triple hr hg hb
  | hex hdigits hlength hend =>
    obtain rfl := tail_eq_nil hend fun c hc => hblank c (by simp [hc])
    rw [List.append_nil]
    exact .hex hdigits hlength

/-! ## §2. Texts without an answer. -/

/-- The text looks like an index and cannot be read as one: some character is not decimal, or there
are too many. -/
structure Unreadable (spec : Text) : Prop where
  ne_nil : spec ≠ []
  digitLike : ∀ c ∈ spec, isDigitLike c = true
  unread : ¬spec.IsDecimal ∨ Integer.maxDigits < spec.length

/-- The fault of a text that looks like digits and cannot be read. -/
def digitFault (spec : Text) : Fault :=
  if Integer.maxDigits < (spec.takeWhile isDecimal).length then
    .integerTooLong (spec.takeWhile isDecimal).length
  else .notInteger spec

theorem Unreadable.read {spec : Text} (h : Unreadable spec) :
    Integer.read spec = .error (digitFault spec) := by
  by_cases hdecimal : spec.IsDecimal
  · have hlong := h.unread.resolve_left (not_not.mpr hdecimal)
    unfold digitFault
    rw [read_decimals hdecimal h.ne_nil, if_pos hlong, List.takeWhile_eq_self_iff.mpr hdecimal,
      if_pos hlong]
  · exact read_digitLike h.digitLike hdecimal

/-! ## §3. The answer. -/

/-- **On an unreadable text the question fails.** -/
theorem isColor_of_unreadable {spec : Text} (h : Unreadable spec) :
    isColor spec = .error (digitFault spec) := by
  have hname : isName spec = false := by
    obtain ⟨c, rest, rfl⟩ := List.exists_cons_of_ne_nil h.ne_nil
    exact isName_of_begins (not_isLower_of_isDigitLike (h.digitLike c List.mem_cons_self)) rest
  have hlook : (!spec.isEmpty && spec.all isDigitLike) = true := by
    rw [List.all_eq_true.mpr h.digitLike]
    simpa using h.ne_nil
  unfold isColor isIndex
  rw [hname, if_neg Bool.false_ne_true, if_pos hlook, h.read]
  rfl

theorem isIndex_of_readable {spec : Text} (h : ¬Unreadable spec) :
    ∃ answer, isIndex spec = .ok answer := by
  unfold isIndex
  split
  · next hlook =>
    obtain ⟨hempty, hall⟩ := Bool.and_eq_true_iff.mp hlook
    have hne : spec ≠ [] := by simpa using hempty
    have hdigits := List.all_eq_true.mp hall
    have hread : spec.IsDecimal ∧ spec.length ≤ Integer.maxDigits := by
      by_contra hnot
      refine h ⟨hne, hdigits, ?_⟩
      by_cases hdecimal : spec.IsDecimal
      · exact .inr (Nat.not_le.mp fun hle => hnot ⟨hdecimal, hle⟩)
      · exact .inl hdecimal
    rw [read_decimals hread.1 hne, if_neg (Nat.not_lt.mpr hread.2)]
    exact ⟨_, rfl⟩
  · exact ⟨false, rfl⟩

/-- **On every other text the question is answered**, by whether the text has a form. -/
theorem isColor_of_readable {spec : Text} (h : ¬Unreadable spec) :
    ∃ answer, isColor spec = .ok answer ∧ (answer = true ↔ HasForm spec) := by
  cases hname : isName spec with
  | true => exact ⟨true, if_pos hname, iff_of_true rfl (.name hname)⟩
  | false =>
    obtain ⟨index, hindex⟩ := isIndex_of_readable h
    have hanswer : isColor spec = .ok (index || isTriple spec || isHex spec) := by
      unfold isColor
      rw [hname, if_neg Bool.false_ne_true, hindex]
      rfl
    refine ⟨_, hanswer, ?_⟩
    rw [Bool.or_eq_true, Bool.or_eq_true]
    constructor
    · rintro ((rfl | htriple) | hhex)
      · obtain ⟨hne, hdecimal, -, hle⟩ := isIndex_eq_true_iff.mp hindex
        exact .index hne hdecimal hle
      · obtain ⟨⟨r, g, b⟩, hparts⟩ := Option.isSome_iff_exists.mp htriple
        exact .triple (triple?_eq_some_iff.mp hparts)
      · obtain ⟨digits, tail, rfl, hdigits, hlength, hend⟩ := isHex_iff.mp hhex
        exact .hex hdigits hlength hend
    · intro hform
      cases hform with
      | name h => exact nomatch hname.symm.trans h
      | index hne hdecimal hle =>
        have hlong : spec.length ≤ Integer.maxDigits := Nat.not_lt.mp fun hlong =>
          h ⟨hne, hdecimal.digitLike, .inr hlong⟩
        have htrue := isIndex_eq_true_iff.mpr ⟨hne, hdecimal, hlong, hle⟩
        exact .inl (.inl (Except.ok.inj (hindex.symm.trans htrue)))
      | triple htriple =>
        exact .inl (.inr (Option.isSome_iff_exists.mpr ⟨_, triple?_eq_some_iff.mpr htriple⟩))
      | hex hdigits hlength hend => exact .inr (isHex_iff.mpr ⟨_, _, rfl, hdigits, hlength, hend⟩)

/-- The three answers, one of which every text has. -/
theorem isColor_cases (spec : Text) :
    (isColor spec = .ok true ↔ HasForm spec ∧ ¬Unreadable spec)
      ∧ (isColor spec = .ok false ↔ ¬HasForm spec ∧ ¬Unreadable spec)
      ∧ ∀ fault, isColor spec = .error fault ↔ Unreadable spec ∧ fault = digitFault spec := by
  by_cases hread : Unreadable spec
  · rw [isColor_of_unreadable hread]
    refine ⟨?_, ?_, fun fault => ?_⟩
    · exact iff_of_false (fun h => nomatch h) fun h => h.2 hread
    · exact iff_of_false (fun h => nomatch h) fun h => h.2 hread
    · exact ⟨fun h => ⟨hread, (Except.error.inj h).symm⟩, fun h => h.2 ▸ rfl⟩
  · obtain ⟨answer, hanswer, hform⟩ := isColor_of_readable hread
    rw [hanswer, ← hform]
    refine ⟨?_, ?_, fun fault => ?_⟩
    · simp [hread]
    · simp [hread]
    · exact iff_of_false (fun h => nomatch h) fun h => hread h.1

/-- The mark of backgrounds is taken off. -/
theorem isBackground_marked {spec : Text} (hspace : ' ' ∉ spec) :
    isBackground (backMark ++ spec) = isColor spec := by
  have hmarked : ' ' ∉ backMark ++ spec := fun hmem =>
    (List.mem_append.mp hmem).elim (by decide) hspace
  have hafter : Text.after? backMark (backMark ++ spec) = some spec := by
    cases spec <;> rfl
  simp only [isBackground, Text.removeSpaces_of_notMem hmarked, hafter]

/-- **The question for a color decides its forms**, on all texts but the unreadable ones, where it
fails.  The plain forms are forms, and where no blank at all is in the text there are no others.  A
text without spaces that is marked as background is asked the same question. -/
theorem isColor_decides {spec : Text} (hspace : ' ' ∉ spec) :
    (isColor spec = .ok true ↔ HasForm spec ∧ ¬Unreadable spec)
      ∧ (isColor spec = .ok false ↔ ¬HasForm spec ∧ ¬Unreadable spec)
      ∧ (∀ fault, isColor spec = .error fault ↔ Unreadable spec ∧ fault = digitFault spec)
      ∧ (IsPlain spec → HasForm spec)
      ∧ ((∀ c ∈ spec, isBlank c = false) → (HasForm spec ↔ IsPlain spec))
      ∧ isBackground (backMark ++ spec) = isColor spec := by
  obtain ⟨htrue, hfalse, hfault⟩ := isColor_cases spec
  exact ⟨htrue, hfalse, hfault, IsPlain.hasForm, hasForm_iff_isPlain, isBackground_marked hspace⟩

/-- A superscript digit behind a decimal one: there is no answer on either ground. -/
theorem isColor_decides_superscript :
    ' ' ∉ "1²".toList
      ∧ (isColor "1²".toList = .error (.notInteger "1²".toList)
          ↔ Unreadable "1²".toList ∧ Fault.notInteger "1²".toList = digitFault "1²".toList)
      ∧ isBackground (backMark ++ "1²".toList) = isColor "1²".toList := by
  have hspace : ' ' ∉ "1²".toList := by decide
  have h := isColor_decides hspace
  exact ⟨hspace, h.2.2.1 _, h.2.2.2.2.2⟩

/-- The question for a color is not answered for every text: a superscript digit is no color, but it
looks like an index. -/
theorem superscript_without_answer :
    ' ' ∉ "²".toList ∧ isColor "²".toList = .error (.notInteger "²".toList)
      ∧ isBackground (backMark ++ "²".toList) = .error (.notInteger "²".toList) := by
  decide +kernel

end ColorSpec

end TermMarkup
