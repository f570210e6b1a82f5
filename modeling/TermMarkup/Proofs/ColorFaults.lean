/-
  TermMarkup.Proofs.ColorFaults
  ─────────────────────────────
  WHAT IS WRONG WITH A STYLE WORD.  A color that cannot be read is a fault of
  values, which the tag of the word takes over as its own fault.  One fault is
  of another kind: a component of a triple that is no finite number, or has no
  finite multiple by 255.  No component up to a bound of the number format has
  that fault.

    • `ColorSpec.fractions` — the components of a triple that are fractions,
    • `ofFraction_failsOnly` — small fractions have no fault but their form,
    • `color?_failsOnly` — the faults of a color word,
    • `resolve_failsOnly` — the faults of a style word.
-/
import TermMarkup.Proofs.Outcome
import TermMarkup.Proofs.Rounding
import TermMarkup.Style

namespace TermMarkup

/-! ## §1. Integers. -/

/-- The fault is one of values. -/
def Fault.IsValue (fault : Fault) : Prop := fault.kind = .value

theorem read_failsOnly (literal : Text) : FailsOnly Fault.IsValue (Integer.read literal) := by
  unfold Integer.read
  split
  next negative body _ =>
  dsimp only
  split
  · exact .error rfl
  · split
    · exact .error rfl
    · split
      · exact .ok _
      · exact .error rfl

namespace ColorSpec

theorem isIndex_failsOnly (spec : Text) : FailsOnly Fault.IsValue (isIndex spec) := by
  unfold isIndex
  split
  · exact (read_failsOnly spec).bind_pure _
  · exact .ok _

theorem isColor_failsOnly (spec : Text) : FailsOnly Fault.IsValue (isColor spec) := by
  unfold isColor
  split
  · exact .ok _
  · exact (isIndex_failsOnly spec).bind_pure _

theorem isBackground_failsOnly (spec : Text) : FailsOnly Fault.IsValue (isBackground spec) := by
  unfold isBackground
  split
  · exact isColor_failsOnly _
  · exact .ok _

/-! ## §2. Fractions. -/

/-- The fractions that the components of a triple are read as: none unless a point is in one. -/
def fractions (spec : Text) : List (Nat × Nat) :=
  match triple? spec with
  | some (r, g, b) =>
    if [r, g, b].any fun digits => digits.contains '.' then [r, g, b].filterMap fraction? else []
  | none => []

/-- Numbers up to two to this power are finite, as are their multiples by 255. -/
def finiteExponent : Nat := 1016

/-- The fraction is beyond that. -/
def Huge (fraction : Nat × Nat) : Prop := 2 ^ finiteExponent * Nat.pow 10 fraction.2 < fraction.1

instance (fraction : Nat × Nat) : Decidable (Huge fraction) := inferInstanceAs (Decidable (_ < _))

/-- A power of two that is small enough has a finite multiple by 255. -/
theorem pow_mul_lt {k : Nat} (hk : Binary64.maxExponent.toNat = k + 8) :
    2 ^ k * maxComponent < twoTo Binary64.maxExponent := by
  rw [twoTo_eq hk, Nat.pow_add]
  exact Nat.mul_lt_mul_of_pos_left (by decide) (Nat.pow_pos Nat.two_pos)

/-- **A fraction that is not huge is a finite component.** -/
theorem exists_component {num places : Nat} (h : ¬Huge (num, places)) :
    ∃ x, (Binary64.ofQuotient? num (Nat.pow 10 places)).bind (·.scale? maxComponent)
      = some x := by
  have hscaled : 2 ^ finiteExponent * maxComponent < twoTo Binary64.maxExponent := pow_mul_lt rfl
  have hlt : 2 ^ finiteExponent < twoTo Binary64.maxExponent :=
    Nat.lt_of_le_of_lt (Nat.le_mul_of_pos_right _ (by decide)) hscaled
  have hgrid : 2 ^ Binary64.topExponent ∣ 2 ^ finiteExponent := Nat.pow_dvd_pow 2 (by decide)
  have hden : 0 < Nat.pow 10 places := Nat.pow_pos (by decide)
  obtain ⟨x, hx, hle⟩ := Binary64.ofQuotient?_le hden hlt hgrid (Nat.not_lt.mp h)
  obtain ⟨y, hy, -⟩ := Binary64.scale?_le hle hscaled hgrid
  exact ⟨y, by rw [hx]; exact hy⟩

/-- A fault of values, or that of a component without a finite value where one of `fs` is huge. -/
def IsFault (fs : List (Nat × Nat)) (fault : Fault) : Prop :=
  fault.IsValue ∨ fault = .infiniteComponent ∧ ∃ f ∈ fs, Huge f

theorem isFault_of_isValue {fs : List (Nat × Nat)} (fault : Fault) (h : fault.IsValue) :
    IsFault fs fault := .inl h

/-- **Small fractions have no fault but their form.** -/
theorem ofFraction_failsOnly (spec digits : Text) :
    FailsOnly (IsFault (fraction? digits).toList) (ofFraction spec digits) := by
  unfold ofFraction
  split
  · exact .error (.inl rfl)
  · next num places hfraction =>
    rw [hfraction]
    split
    · exact .ok _
    · next hnone =>
      refine .error (.inr ⟨rfl, (num, places), List.mem_singleton_self _, ?_⟩)
      by_contra hsmall
      obtain ⟨x, hx⟩ := exists_component hsmall
      exact nomatch hnone.symm.trans hx

theorem ofWhole_failsOnly (spec digits : Text) :
    FailsOnly Fault.IsValue (ofWhole spec digits) := by
  unfold ofWhole
  split
  · exact .ok _
  · exact .error rfl

/-- The faults of a component of a triple. -/
theorem component_failsOnly {spec r g b : Text} (h : triple? spec = some (r, g, b)) {digits : Text}
    (hdigits : digits ∈ [r, g, b]) :
    FailsOnly (IsFault (fractions spec))
      ((if [r, g, b].any fun digits => digits.contains '.' then ofFraction spec
        else ofWhole spec) digits) := by
  unfold fractions
  rw [h]
  dsimp only
  split
  · refine (ofFraction_failsOnly spec digits).imp fun fault hfault => ?_
    refine hfault.imp_right fun ⟨hfault, f, hf, hhuge⟩ => ⟨hfault, f, ?_, hhuge⟩
    exact List.mem_filterMap.mpr ⟨digits, hdigits, Option.mem_toList.mp hf⟩
  · exact (ofWhole_failsOnly spec digits).imp isFault_of_isValue

theorem ofTriple_failsOnly (spec : Text) :
    FailsOnly (IsFault (fractions spec)) (ofTriple spec) := by
  unfold ofTriple
  split
  · exact .error (.inl rfl)
  · next r g b htriple =>
    refine (component_failsOnly htriple (by simp)).bind fun _ _ => ?_
    refine (component_failsOnly htriple (by simp)).bind fun _ _ => ?_
    refine (component_failsOnly htriple (by simp)).bind fun _ _ => ?_
    split
    · exact .error (.inl rfl)
    · exact .ok _

theorem foreground_failsOnly (spec : Text) :
    FailsOnly (IsFault (fractions spec)) (foreground spec) := by
  unfold foreground
  split
  · exact .ok _
  · exact .ok _
  · refine ((isIndex_failsOnly spec).imp isFault_of_isValue).bind fun index _ => ?_
    split
    · exact ((read_failsOnly spec).imp isFault_of_isValue).bind_pure _
    · split
      · exact ofTriple_failsOnly spec
      · split
        · exact .ok _
        · exact .error (.inl rfl)

/-- A background is no triple with its mark on. -/
theorem fractions_of_marked {spec color : Text} (h : Text.after? backMark spec = some color) :
    fractions spec = [] := by
  rw [Text.eq_append_of_after? h]
  rfl

end ColorSpec

/-! ## §3. Words. -/

/-- The fractions of the triple that a color word is, with the mark of a background or without. -/
def Style.fractions (word : Text) : List (Nat × Nat) :=
  let spec := Text.removeSpaces word
  ColorSpec.fractions ((Text.after? ColorSpec.backMark spec).getD spec)

theorem ofSpec_failsOnly (word : Text) (ground : Ground) :
    FailsOnly (ColorSpec.IsFault (Style.fractions word)) (Color.ofSpec word ground) := by
  unfold Color.ofSpec Style.fractions
  dsimp only
  cases hmark : Text.after? ColorSpec.backMark (Text.removeSpaces word) with
  | none =>
    cases ground with
    | fore => exact ColorSpec.foreground_failsOnly _
    | back => exact .error (.inl rfl)
  | some color =>
    cases ground with
    | fore =>
      refine (ColorSpec.foreground_failsOnly _).imp fun fault hfault => ?_
      rw [ColorSpec.fractions_of_marked hmark] at hfault
      exact hfault.imp_right fun ⟨_, f, hf, _⟩ => nomatch hf
    | back => exact ColorSpec.foreground_failsOnly color

/-- **The faults of a color word.** -/
theorem color?_failsOnly (word : Text) :
    FailsOnly (ColorSpec.IsFault (Style.fractions word)) (Style.color? word) := by
  have hpair : ∀ ground, FailsOnly (ColorSpec.IsFault (Style.fractions word))
      (Color.pairOfSpec word ground) := fun ground => (ofSpec_failsOnly word ground).bind_pure _
  unfold Style.color?
  refine ((ColorSpec.isBackground_failsOnly word).imp ColorSpec.isFault_of_isValue).bind
    fun back _ => ?_
  split
  · exact (hpair .back).bind_pure _
  · refine ((ColorSpec.isColor_failsOnly word).imp ColorSpec.isFault_of_isValue).bind
      fun fore _ => ?_
    split
    · exact (hpair .fore).bind_pure _
    · exact .ok _

/-- A fault of the markup, or that of a component without a finite value where a fraction of one of
the words is huge. -/
def Style.IsFault (words : List Text) (fault : Fault) : Prop :=
  fault.kind = .markup
    ∨ fault = .infiniteComponent ∧ ∃ word ∈ words, ∃ f ∈ Style.fractions word, ColorSpec.Huge f

theorem resolvePlain_failsOnly (tag word : Text) {words : List Text} (hword : word ∈ words) :
    FailsOnly (Style.IsFault words) (Style.resolvePlain tag word) := by
  unfold Style.resolvePlain
  split
  · exact .ok _
  · split
    · exact .ok _
    · exact .error (.inl rfl)
    · next cause hcause =>
      rcases color?_failsOnly word cause hcause with hvalue | ⟨rfl, hhuge⟩
      · have hvalue : cause.kind = .value := hvalue
        rw [if_pos hvalue]
        exact .error (.inl rfl)
      · exact .error (.inr ⟨rfl, word, hword, hhuge⟩)

/-- The words that a style word stands for: those of its style if it names a role. -/
def Theme.wordsFor (theme : Theme) (word : Text) : List Text :=
  match theme.styleFor? word with
  | some style => Text.words style
  | none => [word]

/-- **The faults of a style word.** -/
theorem resolve_failsOnly (theme : Theme) (tag word : Text) :
    FailsOnly (Style.IsFault (theme.wordsFor word)) (Style.resolve theme tag word) := by
  unfold Style.resolve Theme.wordsFor
  cases theme.styleFor? word with
  | some style => exact .mapM fun w hw => resolvePlain_failsOnly _ w hw
  | none => exact (resolvePlain_failsOnly _ word (List.mem_singleton_self word)).bind_pure _

end TermMarkup
