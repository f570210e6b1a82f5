/-
  TermMarkup.Proofs.ColorWords
  ────────────────────────────
  THE GROUND OF A COLOR WORD.  A style word is asked for its form before its color
  is read: whether it is a background, then whether it is a color.  The two
  questions and the reader agree.  A text without the form of a color has no
  color, and a fault of the question is one of the reader; the mark of backgrounds
  begins no color of the foreground, so the mark alone decides on which ground a
  word without blanks can have a color.

    • `foreground_eq_isColor_bind` — the form is asked for before the color,
    • `ofSpec_of_ne_ground` — no color on the ground that the mark excludes,
    • `color?_eq_some_iff` — the pair of a color word is that of its color,
    • `resolve_color_word` — words are resolved just as colors are read.
-/
import TermMarkup.Proofs.ColorFaults
import TermMarkup.Proofs.RoleStyles

namespace TermMarkup

/-! ## §1. Forms and colors. -/

namespace ColorSpec

/-- **A color is read only of a text with the form of a color**, and a fault of the form is one of
the color. -/
theorem foreground_eq_isColor_bind (spec : Text) :
    foreground spec = isColor spec >>= fun form =>
      if form then foreground spec else .error (.unknownColor spec) := by
  unfold isColor
  cases hname : isName spec with
  | true => rfl
  | false =>
    rw [foreground_of_not_isName hname]
    cases isIndex spec with
    | error fault => rfl
    | ok index => cases index <;> cases isTriple spec <;> cases isHex spec <;> rfl

/-- No name of a color begins with the mark of backgrounds. -/
theorem isName_marked (color : Text) : isName (backMark ++ color) = false := by
  rw [Bool.eq_false_iff]
  intro h
  exact nomatch (spelled_of_isName h).unmarked

/-- **No color of the foreground begins with the mark of backgrounds.** -/
theorem isColor_marked (color : Text) : isColor (backMark ++ color) = .ok false := by
  have hindex : isIndex (backMark ++ color) = .ok false := by
    have hletter : isDigitLike 'o' = false := by decide
    have hdigits : (backMark ++ color).all isDigitLike = false := by
      show (isDigitLike 'o' && _) = false
      rw [hletter, Bool.false_and]
    unfold isIndex
    rw [hdigits, Bool.and_false]
    rfl
  unfold isColor
  rw [isName_marked, hindex]
  rfl

end ColorSpec

/-! ## §2. Grounds. -/

namespace Style

/-- The ground that a word names: the background if it has the mark. -/
def ground (word : Text) : Ground :=
  if (Text.after? ColorSpec.backMark word).isSome then .back else .fore

/-- The word without the mark of backgrounds. -/
def unmarked (word : Text) : Text := (Text.after? ColorSpec.backMark word).getD word

variable {theme : Theme} {tag word : Text} (hb : ∀ c ∈ word, isBlank c = false)
include hb

/-- A color on the foreground is read from all of the word. -/
theorem ofSpec_fore : Color.ofSpec word .fore = ColorSpec.foreground word := by
  unfold Color.ofSpec
  rw [Text.removeSpaces_eq_self hb]

/-- A color on the background is read from what follows the mark. -/
theorem ofSpec_back {color : Text} (h : Text.after? ColorSpec.backMark word = some color) :
    Color.ofSpec word .back = ColorSpec.foreground color := by
  simp only [Color.ofSpec, Text.removeSpaces_eq_self hb, h]

/-- Without the mark there is no color on the background. -/
theorem ofSpec_back_unmarked (h : Text.after? ColorSpec.backMark word = none) :
    Color.ofSpec word .back = .error (.notBackground word) := by
  simp only [Color.ofSpec, Text.removeSpaces_eq_self hb, h]

/-- On the ground that a word names, its color is that of the word without the mark. -/
theorem ofSpec_ground :
    Color.ofSpec word (ground word) = ColorSpec.foreground (unmarked word) := by
  unfold ground unmarked
  cases hmark : Text.after? ColorSpec.backMark word with
  | none => exact ofSpec_fore hb
  | some color => exact ofSpec_back hb hmark

/-- **On the other ground a word has no color.** -/
theorem ofSpec_of_ne_ground {g : Ground} (hg : g ≠ ground word) :
    ∃ fault, Color.ofSpec word g = .error fault := by
  unfold ground at hg
  cases hmark : Text.after? ColorSpec.backMark word with
  | none =>
    rw [hmark] at hg
    cases g with
    | fore => exact absurd rfl hg
    | back => exact ⟨.notBackground word, ofSpec_back_unmarked hb hmark⟩
  | some color =>
    rw [hmark] at hg
    cases g with
    | fore =>
      refine ⟨.unknownColor word, ?_⟩
      rw [ofSpec_fore hb, ColorSpec.foreground_eq_isColor_bind, Text.eq_append_of_after? hmark,
        ColorSpec.isColor_marked]
      rfl
    | back => exact absurd rfl hg

/-- A color word is asked for its form without the mark, then read on the ground that it names. -/
theorem color?_eq_isColor_bind :
    color? word = ColorSpec.isColor (unmarked word) >>= fun form =>
      if form then return some (← Color.pairOfSpec word (ground word)) else return none := by
  unfold color? ColorSpec.isBackground ground unmarked
  rw [Text.removeSpaces_eq_self hb]
  cases hmark : Text.after? ColorSpec.backMark word with
  | none => rfl
  | some color =>
    have hfore : ColorSpec.isColor word = .ok false :=
      Text.eq_append_of_after? hmark ▸ ColorSpec.isColor_marked color
    rw [hfore]
    dsimp only [Option.getD_some]
    cases ColorSpec.isColor color with
    | error fault => rfl
    | ok form => cases form <;> rfl

/-! ## §3. Words. -/

/-- A pair is read as its color is: after the form. -/
theorem pairOfSpec_eq_isColor_bind :
    Color.pairOfSpec word (ground word) = ColorSpec.isColor (unmarked word) >>= fun form =>
      if form then Color.pairOfSpec word (ground word)
      else .error (.unknownColor (unmarked word)) := by
  unfold Color.pairOfSpec
  rw [ofSpec_ground hb, ColorSpec.foreground_eq_isColor_bind]
  cases ColorSpec.isColor (unmarked word) with
  | error fault => rfl
  | ok form => cases form <;> rfl

/-- **The pair of a color word** is that of its color on the ground that it names. -/
theorem color?_eq_some_iff {pair : StylePair} :
    color? word = .ok (some pair) ↔ Color.pairOfSpec word (ground word) = .ok pair := by
  rw [color?_eq_isColor_bind hb, pairOfSpec_eq_isColor_bind hb]
  cases ColorSpec.isColor (unmarked word) with
  | error fault => exact iff_of_false (fun h => nomatch h) fun h => nomatch h
  | ok form =>
    cases form with
    | false => exact iff_of_false (fun h => nomatch h) fun h => nomatch h
    | true =>
      rw [ok_bind, ok_bind, if_pos rfl, if_pos rfl]
      cases Color.pairOfSpec word (ground word) with
      | error fault => exact iff_of_false (fun h => nomatch h) fun h => nomatch h
      | ok p => simp [bind, Except.bind, pure, Except.pure]

/-- A word whose color cannot be read has not the form of a color, or has this fault. -/
theorem color?_of_error {fault : Fault} (h : Color.pairOfSpec word (ground word) = .error fault) :
    color? word = .ok none ∨ color? word = .error fault := by
  rw [pairOfSpec_eq_isColor_bind hb] at h
  rw [color?_eq_isColor_bind hb]
  cases hform : ColorSpec.isColor (unmarked word) with
  | error fault' =>
    rw [hform] at h
    obtain rfl := Except.error.inj h
    exact .inr rfl
  | ok form =>
    cases form with
    | false => exact .inl rfl
    | true =>
      rw [hform, ok_bind, if_pos rfl] at h
      rw [ok_bind, if_pos rfl, h]
      exact .inr rfl

omit hb in
/-- A color has its pair. -/
theorem pairOfSpec_eq_ok_iff {g : Ground} {pair : StylePair} :
    Color.pairOfSpec word g = .ok pair ↔
      ∃ color, Color.ofSpec word g = .ok color ∧ pair = color.pair g := by
  unfold Color.pairOfSpec
  rw [bind_eq_ok]
  constructor
  · rintro ⟨color, hcolor, h⟩
    exact ⟨color, hcolor, (Except.ok.inj h).symm⟩
  · rintro ⟨color, hcolor, rfl⟩
    exact ⟨color, hcolor, rfl⟩

/-- A word with a color names the ground of this color. -/
theorem eq_ground_of_ofSpec {g : Ground} {color : Color} (h : Color.ofSpec word g = .ok color) :
    g = ground word := by
  by_contra hg
  obtain ⟨fault, hfault⟩ := ofSpec_of_ne_ground hb hg
  exact nomatch hfault.symm.trans h

variable (hattribute : attribute? word = none) (hrole : theme.styleFor? word = none)
include hattribute hrole

/-- A word that is neither attribute nor role has no pairs but that of its color. -/
theorem resolve_eq_ok_iff_color {pairs : List StylePair} :
    resolve theme tag word = .ok pairs ↔
      ∃ g color, Color.ofSpec word g = .ok color ∧ pairs = [color.pair g] := by
  rw [resolve_eq_ok_iff hrole tag]
  constructor
  · rintro ⟨pair, hpair, rfl⟩
    rcases resolvePlain_eq_ok_iff.mp hpair with h | ⟨-, h⟩
    · exact nomatch hattribute.symm.trans h
    · obtain ⟨color, hcolor, rfl⟩ := pairOfSpec_eq_ok_iff.mp ((color?_eq_some_iff hb).mp h)
      exact ⟨ground word, color, hcolor, rfl⟩
  · rintro ⟨g, color, hcolor, rfl⟩
    obtain rfl := eq_ground_of_ofSpec hb hcolor
    have hpair : Color.pairOfSpec word (ground word) = .ok (color.pair (ground word)) :=
      pairOfSpec_eq_ok_iff.mpr ⟨color, hcolor, rfl⟩
    have hword := (color?_eq_some_iff hb).mpr hpair
    exact ⟨_, resolvePlain_eq_ok_iff.mpr (.inr ⟨hattribute, hword⟩), rfl⟩

omit hrole in
/-- A fault of values in the color of a word is a fault of its tag. -/
theorem resolvePlain_of_value_fault (tag : Text) {fault : Fault}
    (h : Color.ofSpec word (ground word) = .error fault) (hvalue : fault.kind = .value) :
    ∃ fault', resolvePlain tag word = .error fault' ∧ fault'.kind = .markup := by
  have hpair : Color.pairOfSpec word (ground word) = .error fault := by
    unfold Color.pairOfSpec
    rw [h]
    rfl
  unfold resolvePlain
  rw [hattribute]
  rcases color?_of_error hb hpair with hcolor | hcolor
  · rw [hcolor]
    exact ⟨.unknownStyle word tag, rfl, rfl⟩
  · rw [hcolor]
    exact ⟨.unusableColor word tag fault, congrArg Except.error (if_pos hvalue), rfl⟩

theorem resolve_of_value_fault {fault : Fault}
    (h : Color.ofSpec word (ground word) = .error fault) (hvalue : fault.kind = .value) :
    ∃ fault', resolve theme tag word = .error fault' ∧ fault'.kind = .markup := by
  obtain ⟨fault', hfault', hkind⟩ := resolvePlain_of_value_fault hb hattribute
    (if tag.isEmpty then (Mark.tag false word).source else tag) h hvalue
  refine ⟨fault', ?_, hkind⟩
  unfold resolve
  dsimp only
  rw [hrole]
  dsimp only
  rw [hfault']
  rfl

/-- **Words are resolved just as colors are read.**  A word without blanks that is neither attribute
nor role has pairs exactly if it denotes a color in the foreground or in the background, of which it
does not do both; its only pair is then that of this color.  If both readings fail over a value, the
word is a fault of the markup. -/
theorem resolve_color_word :
    ((∃ pairs, resolve theme tag word = .ok pairs) ↔
        (∃ color, Color.ofSpec word .fore = .ok color)
          ∨ ∃ color, Color.ofSpec word .back = .ok color)
      ∧ ¬((∃ color, Color.ofSpec word .fore = .ok color)
          ∧ ∃ color, Color.ofSpec word .back = .ok color)
      ∧ (∀ g color, Color.ofSpec word g = .ok color →
          Color.pairOfSpec word g = .ok (color.pair g)
            ∧ resolve theme tag word = .ok [color.pair g])
      ∧ ((∀ g, ∃ fault, Color.ofSpec word g = .error fault ∧ fault.kind = .value) →
          ∃ fault, resolve theme tag word = .error fault ∧ fault.kind = .markup) := by
  refine ⟨⟨?_, ?_⟩, ?_, ?_, ?_⟩
  · rintro ⟨pairs, hpairs⟩
    obtain ⟨g, color, hcolor, -⟩ := (resolve_eq_ok_iff_color hb hattribute hrole).mp hpairs
    cases g with
    | fore => exact .inl ⟨color, hcolor⟩
    | back => exact .inr ⟨color, hcolor⟩
  · rintro (⟨color, hcolor⟩ | ⟨color, hcolor⟩) <;>
      exact ⟨_, (resolve_eq_ok_iff_color hb hattribute hrole).mpr ⟨_, color, hcolor, rfl⟩⟩
  · rintro ⟨⟨fore, hfore⟩, back, hback⟩
    exact nomatch (eq_ground_of_ofSpec hb hfore).trans (eq_ground_of_ofSpec hb hback).symm
  · intro g color hcolor
    exact ⟨pairOfSpec_eq_ok_iff.mpr ⟨color, hcolor, rfl⟩,
      (resolve_eq_ok_iff_color hb hattribute hrole).mpr ⟨g, color, hcolor, rfl⟩⟩
  · intro hvalues
    obtain ⟨fault, hfault, hvalue⟩ := hvalues (ground word)
    exact resolve_of_value_fault hb hattribute hrole hfault hvalue

omit hb hattribute hrole in
/-- A background in hexadecimal digits, and a marked digit that is not decimal: the question for its
form already fails. -/
theorem resolve_color_word_backgrounds :
    resolve Theme.standard [] "on_#0f8".toList
        = .ok [⟨"\x1b[48;2;0;255;136m".toList, "\x1b[49m".toList⟩]
      ∧ (¬∃ color, Color.ofSpec "on_#0f8".toList .fore = .ok color)
      ∧ ∃ fault, resolve Theme.standard [] "on_²".toList = .error fault
          ∧ fault.kind = .markup := by
  have hcolor : Color.ofSpec "on_#0f8".toList .back = .ok (.rgb 0 255 136) := by decide +kernel
  have hpair : (Color.rgb 0 255 136).pair .back
      = ⟨"\x1b[48;2;0;255;136m".toList, "\x1b[49m".toList⟩ := by decide +kernel
  have hvalues : ∀ g, ∃ fault, Color.ofSpec "on_²".toList g = .error fault
      ∧ fault.kind = .value := by
    intro g
    cases g with
    | fore => exact ⟨.unknownColor "on_²".toList, by decide +kernel, rfl⟩
    | back => exact ⟨.notInteger "²".toList, by decide +kernel, rfl⟩
  have hnone : ∀ {w : Text}, w.all (!isBlank ·) = true → ∀ c ∈ w, isBlank c = false := by
    intro w hw c hc
    simpa using List.all_eq_true.mp hw c hc
  have hword := @resolve_color_word Theme.standard [] "on_#0f8".toList
    (hnone (by decide +kernel)) (by decide +kernel) (by decide +kernel)
  have hdigit := @resolve_color_word Theme.standard [] "on_²".toList
    (hnone (by decide +kernel)) (by decide +kernel) (by decide +kernel)
  obtain ⟨-, hboth, hresolved, -⟩ := hword
  obtain ⟨-, -, -, hfault⟩ := hdigit
  exact ⟨hpair ▸ (hresolved .back _ hcolor).2, fun hfore => hboth ⟨hfore, _, hcolor⟩,
    hfault hvalues⟩

end Style

end TermMarkup
