/-
  TermMarkup.Proofs.ColorForms
  ────────────────────────────
  THE FORMS OF COLORS.  A color that is no name is a run of digits, a triple in
  brackets or a run of hexadecimal digits behind a number sign.  The recognizers
  are loops over the text; here each form is told by the parts that the text
  consists of, and the recognizer accepts exactly the texts of that form.

    • `spelled_of_isName` — how names are spelled,
    • `isIndex_eq_true_iff` — indices,
    • `component?_eq_some_iff`, `triple?_eq_some_iff` — triples,
    • `isHex_iff` — hexadecimal colors,
    • `foreground_cases` — what is read has one of these forms, or is a name.
-/
import TermMarkup.Color.Spec
import TermMarkup.Proofs.Decimals
import TermMarkup.Proofs.Outcome

namespace TermMarkup

namespace ColorSpec

/-! ## §1. Names. -/

/-- A character of a color's name. -/
def isNameChar (c : Char) : Bool := c.isLower || c.isDigit || c == '_'

/-- How names of colors are spelled: small letters, digits and underscores, with a letter in front,
and the mark of backgrounds at the beginning of none. -/
structure Spelled (w : Text) : Prop where
  begins : w.head?.any Char.isLower = true
  chars : w.all isNameChar = true
  unmarked : Text.after? backMark w = none

instance (w : Text) : Decidable (Spelled w) :=
  decidable_of_iff
    (w.head?.any Char.isLower = true ∧ w.all isNameChar = true ∧ Text.after? backMark w = none)
    ⟨fun ⟨begins, chars, unmarked⟩ => ⟨begins, chars, unmarked⟩,
      fun h => ⟨h.begins, h.chars, h.unmarked⟩⟩

/-- **Names of colors are spelled so**, those of the palette in either spelling. -/
theorem spelled_of_isName {w : Text} (h : isName w = true) : Spelled w := by
  have hbasic : ∀ color ∈ BasicColor.all, Spelled color.name := by decide
  have hpalette : ∀ entry ∈ Palette.names, Spelled entry.1.toList
      ∧ Spelled (Palette.respelled entry.1.toList) := by
    decide +kernel
  unfold isName at h
  rcases Bool.or_eq_true_iff.mp h with h | h
  · obtain ⟨color, hcolor⟩ := Option.isSome_iff_exists.mp h
    obtain rfl : color.name = w := by simpa using List.find?_some hcolor
    exact hbasic color (List.mem_of_find?_eq_some hcolor)
  · obtain ⟨index, hindex⟩ := Option.isSome_iff_exists.mp h
    obtain ⟨entry, hfind, -⟩ := Option.map_eq_some_iff.mp hindex
    obtain ⟨hname, hrespelled⟩ := hpalette entry (List.mem_of_find?_eq_some hfind)
    have hspelled : entry.1.toList = w ∨ Palette.respelled entry.1.toList = w := by
      simpa using List.find?_some hfind
    rcases hspelled with rfl | rfl
    · exact hname
    · exact hrespelled

theorem isName_nil : isName [] = false := by
  rw [Bool.eq_false_iff]
  intro h
  exact nomatch (spelled_of_isName h).begins

/-- A text that begins otherwise is no name. -/
theorem isName_of_begins {c : Char} (hc : c.isLower = false) (rest : Text) :
    isName (c :: rest) = false := by
  rw [Bool.eq_false_iff]
  intro h
  exact nomatch hc.symm.trans (spelled_of_isName h).begins

/-- What is no name is read by the other forms. -/
theorem foreground_of_not_isName {spec : Text} (h : isName spec = false) :
    foreground spec = (do
      if ← isIndex spec then return .palette (← Integer.read spec)
      else if isTriple spec then ofTriple spec
      else if isHex spec then return ofHex (spec.drop 1)
      else .error (.unknownColor spec)) := by
  have hnone : BasicColor.ofName? spec = none ∧ Palette.index? spec = none := by
    simpa [isName] using h
  unfold foreground
  rw [hnone.1, hnone.2]

/-! ## §2. Indices. -/

theorem not_isBlank_of_isDigitLike {c : Char} (h : isDigitLike c = true) : isBlank c = false := by
  rcases Bool.or_eq_true_iff.mp h with h | h
  · exact not_isBlank_of_isDecimal h
  · exact CodeRanges.contains_of_apart (by decide +kernel) h

/-- **Of texts that look like digits, only decimal ones are read.**  The decimal digits in front are
counted before anything is said about what follows them. -/
theorem read_digitLike {spec : Text} (hd : ∀ c ∈ spec, isDigitLike c = true)
    (hnot : ¬spec.IsDecimal) :
    Integer.read spec
      = .error (if Integer.maxDigits < (spec.takeWhile isDecimal).length
          then .integerTooLong (spec.takeWhile isDecimal).length else .notInteger spec) := by
  have hmargin : ∀ c ∈ spec, Integer.isMargin c = false := by
    intro c hc
    unfold Integer.isMargin
    rw [not_isBlank_of_isDigitLike (hd c hc), Bool.false_and]
  have hself : spec.dropWhile Integer.isMargin = spec :=
    List.dropWhile_eq_self_iff.mpr fun hlen => by simp [hmargin _ (List.getElem_mem hlen)]
  have hrun : Text.IsDecimal (spec.takeWhile isDecimal) := fun c hc => List.mem_takeWhile_imp hc
  have hne : spec.dropWhile isDecimal ≠ [] := fun hnil => hnot (List.dropWhile_eq_nil_iff.mp hnil)
  have hin : ∀ c ∈ spec.dropWhile isDecimal, c ∈ spec := fun c hc =>
    (List.dropWhile_sublist _).subset hc
  -- no underscore looks like a digit, so the run is the decimal digits in front
  have hparts : spec.takeWhile Integer.isRunChar = spec.takeWhile isDecimal
      ∧ spec.dropWhile Integer.isRunChar = spec.dropWhile isDecimal := by
    have hall : ∀ c ∈ spec.takeWhile isDecimal, Integer.isRunChar c = true := fun c hc =>
      Bool.or_eq_true_iff.mpr (.inr (hrun c hc))
    have hhead : ∀ c ∈ (spec.dropWhile isDecimal).head?, Integer.isRunChar c = false := by
      intro c hc
      have hdecimal := List.head?_dropWhile_not isDecimal spec
      rw [Option.mem_def.mp hc] at hdecimal
      have hunderscore : c ≠ '_' := by
        rintro rfl
        exact nomatch hd '_' (hin _ (List.mem_of_mem_head? hc))
      simp [Integer.isRunChar, hdecimal, hunderscore]
    have hcut := Text.takeWhile_run hall hhead
    rwa [List.takeWhile_append_dropWhile] at hcut
  have hbehind : (spec.dropWhile isDecimal).all Integer.isMargin = false := by
    obtain ⟨c, rest, hcut⟩ := List.exists_cons_of_ne_nil hne
    have hc : c ∈ spec := hin c (hcut ▸ List.mem_cons_self)
    rw [hcut, List.all_cons, hmargin c hc, Bool.false_and]
  unfold Integer.read
  rw [hself, unsigned_of_digitLike hd]
  dsimp only
  rw [hparts.1, hparts.2, length_values hrun, hbehind]
  by_cases hnil : spec.takeWhile isDecimal = []
  · rw [hnil]
    rfl
  · rw [wellSpaced_decimals hrun hnil]
    split
    · next h => exact nomatch h
    · split <;> rfl

/-- Of texts that look like digits, only those of decimal digits are read. -/
theorem isDecimal_of_read {spec : Text} (hd : ∀ c ∈ spec, isDigitLike c = true) {n : Int}
    (h : Integer.read spec = .ok n) : spec.IsDecimal := by
  by_contra hnot
  exact nomatch (read_digitLike hd hnot).symm.trans h

/-- **An index** is a run of decimal digits that is read, with a number up to 255. -/
theorem isIndex_eq_true_iff {spec : Text} :
    isIndex spec = .ok true ↔ spec ≠ [] ∧ spec.IsDecimal ∧ spec.length ≤ Integer.maxDigits
      ∧ spec.number ≤ maxComponent := by
  constructor
  · intro h
    unfold isIndex at h
    split at h
    · next hdigits =>
      obtain ⟨hne, hall⟩ := Bool.and_eq_true_iff.mp hdigits
      have hne : spec ≠ [] := by simpa using hne
      obtain ⟨n, hn, h⟩ := bind_eq_ok.mp h
      have hdecimal := isDecimal_of_read (List.all_eq_true.mp hall) hn
      have hle := of_decide_eq_true (Except.ok.inj h)
      rw [read_decimals hdecimal hne] at hn
      split at hn
      · exact nomatch hn
      · next hlong =>
        obtain rfl := Except.ok.inj hn
        exact ⟨hne, hdecimal, Nat.not_lt.mp hlong, Int.ofNat_le.mp hle⟩
    · exact nomatch h
  · rintro ⟨hne, hdecimal, hlong, hle⟩
    have hall : spec.all isDigitLike = true := List.all_eq_true.mpr hdecimal.digitLike
    have hlook : (!spec.isEmpty && spec.all isDigitLike) = true := by
      rw [hall]
      simpa using hne
    unfold isIndex
    rw [if_pos hlook, read_decimals hdecimal hne, if_neg (Nat.not_lt.mpr hlong), ok_bind]
    exact congrArg Except.ok (decide_eq_true (Int.ofNat_le.mpr hle))

/-! ## §3. Triples. -/

/-- The field of a triple holds the component `digits`, with blanks around it. -/
structure Holds (field digits : Text) : Prop where
  margins : ∃ before after, field = before ++ digits ++ after
    ∧ (∀ c ∈ before, isBlank c = true) ∧ ∀ c ∈ after, isBlank c = true
  ne_nil : digits ≠ []
  chars : ∀ c ∈ digits, isComponentChar c = true

theorem not_isBlank_of_isComponentChar {c : Char} (h : isComponentChar c = true) :
    isBlank c = false := by
  rcases Bool.or_eq_true_iff.mp h with h | h
  · exact not_isBlank_of_isDecimal h
  · obtain rfl : c = '.' := by simpa using h
    decide

theorem not_isComponentChar_of_isBlank {c : Char} (h : isBlank c = true) :
    isComponentChar c = false := by
  rw [Bool.eq_false_iff]
  exact fun hc => nomatch (not_isBlank_of_isComponentChar hc).symm.trans h

/-- **A component is read** from the text of a field that holds it, with `stop` behind. -/
theorem component?_eq_some_iff {stop : Char}
    (hstop : isBlank stop = false ∧ isComponentChar stop = false) {t digits rest : Text} :
    component? stop t = some (digits, rest) ↔
      ∃ field, t = field ++ stop :: rest ∧ Holds field digits := by
  constructor
  · intro h
    unfold component? at h
    dsimp only at h
    split at h
    · next c after hafter =>
      split at h
      · next hread =>
        obtain ⟨rfl, hne⟩ := hread
        obtain ⟨rfl, rfl⟩ := Prod.mk.inj (Option.some.inj h)
        set u := t.dropWhile isBlank with hu
        set v := u.dropWhile isComponentChar with hv
        refine ⟨t.takeWhile isBlank ++ u.takeWhile isComponentChar ++ v.takeWhile isBlank, ?_,
          ⟨_, _, rfl, fun c hc => List.mem_takeWhile_imp hc, fun c hc => List.mem_takeWhile_imp hc⟩,
          hne, fun c hc => List.mem_takeWhile_imp hc⟩
        rw [← hafter, List.append_assoc, List.takeWhile_append_dropWhile, List.append_assoc, hv,
          List.takeWhile_append_dropWhile, hu, List.takeWhile_append_dropWhile]
      · exact nomatch h
    · exact nomatch h
  · rintro ⟨field, rfl, ⟨before, after, rfl, hbefore, hafter⟩, hne, hchars⟩
    have hdigits : ∀ c ∈ (digits ++ (after ++ stop :: rest)).head?, isBlank c = false := by
      obtain ⟨d, ds, rfl⟩ := List.exists_cons_of_ne_nil hne
      intro c hc
      obtain rfl : d = c := Option.some.inj hc
      exact not_isBlank_of_isComponentChar (hchars d List.mem_cons_self)
    have hbehind : ∀ c ∈ (after ++ stop :: rest).head?, isComponentChar c = false := by
      intro c hc
      cases after with
      | nil =>
        obtain rfl : stop = c := Option.some.inj hc
        exact hstop.2
      | cons a after =>
        obtain rfl : a = c := Option.some.inj hc
        exact not_isComponentChar_of_isBlank (hafter a List.mem_cons_self)
    have hend : ∀ c ∈ (stop :: rest).head?, isBlank c = false := by
      intro c hc
      obtain rfl : stop = c := Option.some.inj hc
      exact hstop.1
    unfold component?
    rw [List.append_assoc, List.append_assoc, (Text.takeWhile_run hbefore hdigits).2]
    dsimp only
    rw [(Text.takeWhile_run hchars hbehind).1, (Text.takeWhile_run hchars hbehind).2,
      (Text.takeWhile_run hafter hend).2]
    exact if_pos ⟨rfl, hne⟩

/-- The text is a triple with these components: three fields in brackets, with commas between them,
and behind the bracket a newline or nothing. -/
def IsTripleOf (r g b spec : Text) : Prop :=
  ∃ x y z tail, spec = '(' :: x ++ ',' :: y ++ ',' :: z ++ ')' :: tail
    ∧ Holds x r ∧ Holds y g ∧ Holds z b ∧ atEnd tail = true

/-- **The components of a triple** are read from the text of a triple, and from no other. -/
theorem triple?_eq_some_iff {spec r g b : Text} :
    triple? spec = some (r, g, b) ↔ IsTripleOf r g b spec := by
  have hcomma : isBlank ',' = false ∧ isComponentChar ',' = false := by decide
  have hbracket : isBlank ')' = false ∧ isComponentChar ')' = false := by decide
  constructor
  · intro h
    unfold triple? at h
    split at h
    · next t =>
      obtain ⟨⟨r', afterRed⟩, hr, h⟩ := Option.bind_eq_some_iff.mp h
      obtain ⟨⟨g', afterGreen⟩, hg, h⟩ := Option.bind_eq_some_iff.mp h
      obtain ⟨⟨b', afterBlue⟩, hb, h⟩ := Option.bind_eq_some_iff.mp h
      dsimp only at h
      split at h
      · next hend =>
        obtain ⟨rfl, hparts⟩ := Prod.mk.inj (Option.some.inj h)
        obtain ⟨rfl, rfl⟩ := Prod.mk.inj hparts
        obtain ⟨x, rfl, hx⟩ := (component?_eq_some_iff hcomma).mp hr
        obtain ⟨y, rfl, hy⟩ := (component?_eq_some_iff hcomma).mp hg
        obtain ⟨z, rfl, hz⟩ := (component?_eq_some_iff hbracket).mp hb
        exact ⟨x, y, z, afterBlue, by simp, hx, hy, hz, hend⟩
      · exact nomatch h
    · exact nomatch h
  · rintro ⟨x, y, z, tail, rfl, hx, hy, hz, hend⟩
    have hr : component? ',' (x ++ ',' :: (y ++ ',' :: (z ++ ')' :: tail)))
        = some (r, y ++ ',' :: (z ++ ')' :: tail)) :=
      (component?_eq_some_iff hcomma).mpr ⟨x, rfl, hx⟩
    have hg : component? ',' (y ++ ',' :: (z ++ ')' :: tail)) = some (g, z ++ ')' :: tail) :=
      (component?_eq_some_iff hcomma).mpr ⟨y, rfl, hy⟩
    have hb : component? ')' (z ++ ')' :: tail) = some (b, tail) :=
      (component?_eq_some_iff hbracket).mpr ⟨z, rfl, hz⟩
    simp only [List.cons_append, List.append_assoc, triple?, hr, hg, hb, Option.bind_eq_bind,
      Option.bind_some]
    exact if_pos hend

/-! ## §4. Hexadecimal colors. -/

/-- **A hexadecimal color** is a number sign, three or six digits, and behind them a newline or
nothing. -/
theorem isHex_iff {spec : Text} :
    isHex spec = true ↔ ∃ digits tail, spec = '#' :: digits ++ tail
      ∧ (∀ c ∈ digits, Hexadecimal.isDigit c = true) ∧ (digits.length = 3 ∨ digits.length = 6)
      ∧ atEnd tail = true := by
  constructor
  · intro h
    unfold isHex at h
    split at h
    · next t =>
      obtain ⟨hlength, hend⟩ := Bool.and_eq_true_iff.mp h
      refine ⟨t.takeWhile Hexadecimal.isDigit, t.dropWhile Hexadecimal.isDigit, ?_,
        fun c hc => List.mem_takeWhile_imp hc, by simpa using hlength, hend⟩
      rw [List.cons_append, List.takeWhile_append_dropWhile]
    · exact nomatch h
  · rintro ⟨digits, tail, rfl, hdigits, hlength, hend⟩
    have htail : ∀ c ∈ tail.head?, Hexadecimal.isDigit c = false := by
      intro c hc
      rcases Bool.or_eq_true_iff.mp hend with h | h
      · obtain rfl := of_decide_eq_true h
        exact nomatch hc
      · obtain rfl := of_decide_eq_true h
        obtain rfl : '\n' = c := Option.some.inj hc
        decide
    obtain ⟨htake, hdrop⟩ := Text.takeWhile_run hdigits htail
    simp only [List.cons_append, isHex, htake, hdrop, hend, Bool.and_true]
    simpa using hlength

/-! ## §5. Colors without a name. -/

/-- What is read and no name is an index, a triple or in hexadecimal digits. -/
theorem foreground_cases {spec : Text} {color : Color} (hname : isName spec = false)
    (h : foreground spec = .ok color) :
    (isIndex spec = .ok true ∧ color = .palette spec.number)
      ∨ (isTriple spec = true ∧ ofTriple spec = .ok color)
      ∨ isHex spec = true ∧ color = ofHex (spec.drop 1) := by
  rw [foreground_of_not_isName hname] at h
  obtain ⟨index, hindex, h⟩ := bind_eq_ok.mp h
  cases index with
  | true =>
    obtain ⟨hne, hdecimal, hlong, -⟩ := isIndex_eq_true_iff.mp hindex
    obtain ⟨n, hn, h⟩ := bind_eq_ok.mp h
    rw [read_decimals hdecimal hne, if_neg (Nat.not_lt.mpr hlong)] at hn
    obtain rfl := Except.ok.inj hn
    exact .inl ⟨hindex, (Except.ok.inj h).symm⟩
  | false =>
    rw [if_neg Bool.false_ne_true] at h
    split at h
    · next htriple => exact .inr (.inl ⟨htriple, h⟩)
    · split at h
      · next hhex => exact .inr (.inr ⟨hhex, (Except.ok.inj h).symm⟩)
      · exact nomatch h

end ColorSpec

end TermMarkup
