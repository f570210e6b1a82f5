/-
  TermMarkup.Proofs.StylePairs
  ────────────────────────────
  THE CODES OF STYLE WORDS ARE READ AS THEY WERE WRITTEN.  The tables and color
  forms that words are resolved by say with which code a style begins and with
  which it ends; reading the first code leads to an effect, which has codes to
  open and to close by of its own.  The two agree on every pair, except that the
  terminal's default color is read as the close that it is.

    • `StylePair.ReadBack` — the pair agrees with the effect of its code,
    • `Sgr.OpeningNumbers` — the numbers that a code opens by,
    • `resolve_readBack` — every pair of a resolved word is read back.
-/
import TermMarkup.Proofs.StyleCodes

namespace TermMarkup

/-! ## §1. Pairs and the effects of their codes. -/

/-- Reading the code that opens gives one effect, and no other.  It is an opening, and the pair's
codes are those of the effect; or else the color is the terminal's own default, both codes are the
same, and the effect is the close of that code. -/
inductive StylePair.ReadBack (pair : StylePair) : Prop
  | opening (e : Effect) : Effect.ofCode pair.opens = .ok [e] → e.isOn = true →
      e.openCode = pair.opens → e.closeCode = pair.closes → ReadBack pair
  | default (ground : Ground) : pair = (Color.basic .default).pair ground →
      pair.opens = pair.closes →
      Effect.ofCode pair.opens = .ok [.switchOff ground.dimension.channel] →
      (Effect.switchOff ground.dimension.channel).closeCode = pair.closes → ReadBack pair

/-- A code with an effect of its own is read as that opening. -/
theorem Effect.Canonical.readBack {d : Dimension} {params : Text}
    (h : (Effect.switchOn d params).Canonical) :
    StylePair.ReadBack ⟨Sgr.code params, d.channel.closeCode⟩ :=
  .opening (.switchOn d params) h.2 rfl rfl rfl

/-- **A known pair is read back.** -/
theorem StylePair.Known.readBack {pair : StylePair} (h : pair.Known) : pair.ReadBack := by
  cases h with
  | switch hd => exact (switch_canonical hd).readBack
  | @color color ground hcolor =>
    by_cases hdefault : color = .basic .default
    · subst hdefault
      cases ground
      · exact .default .fore rfl (by decide) (by with_unfolding_all decide) rfl
      · exact .default .back rfl (by decide) (by with_unfolding_all decide) rfl
    · have hcanon := color_canonical hcolor ground
      unfold Color.effect at hcanon
      rw [if_neg hdefault] at hcanon
      exact hcanon.readBack

/-! ## §2. Parameters. -/

/-- The numbers that a code opens by: a single one, or an extended color with its mode and with
components from 0 to 255. -/
inductive Sgr.OpeningNumbers : List Nat → Prop
  | single (n : Nat) : OpeningNumbers [n]
  | palette (ground : Ground) {index : Nat} : index ≤ 255 →
      OpeningNumbers [ground.dimension.opening, 5, index]
  | rgb (ground : Ground) {r g b : Nat} : r ≤ 255 → g ≤ 255 → b ≤ 255 →
      OpeningNumbers [ground.dimension.opening, 2, r, g, b]

/-- A number from 0 to 255 is a natural number in its digits. -/
theorem exists_digitsOf {i : Int} (h : 0 ≤ i ∧ i ≤ 255) :
    ∃ n : Nat, n ≤ 255 ∧ decimalOf i = digitsOf n := by
  obtain ⟨n, rfl⟩ := Int.eq_ofNat_of_zero_le h.1
  exact ⟨n, by omega, decimalOf_natCast n⟩

/-- **A known pair opens by numbers** in decimal digits, with semicolons between them. -/
theorem StylePair.Known.numbers {pair : StylePair} (h : pair.Known) :
    ∃ ns, Sgr.OpeningNumbers ns ∧ pair.opens = Sgr.code (Text.join [';'] (ns.map digitsOf)) := by
  cases h with
  | @switch d hd =>
    refine ⟨_, .single d.opening, ?_⟩
    exact congrArg Sgr.code (Text.join_singleton _ _).symm
  | @color color ground hcolor =>
    have hopens : (color.pair ground).opens = Sgr.code (Sgr.paramText (color.params ground)) := rfl
    rw [hopens]
    cases color with
    | basic color =>
      refine ⟨_, .single (ground.basicStart + color.number), ?_⟩
      cases color <;> cases ground <;> with_unfolding_all decide
    | palette index =>
      obtain ⟨n, hn, hindex⟩ := exists_digitsOf hcolor
      refine ⟨_, .palette ground hn, ?_⟩
      rw [paramText_palette, hindex]
      rfl
    | rgb r g b =>
      obtain ⟨hr, hg, hb⟩ := hcolor
      obtain ⟨r', hr', hred⟩ := exists_digitsOf hr
      obtain ⟨g', hg', hgreen⟩ := exists_digitsOf hg
      obtain ⟨b', hb', hblue⟩ := exists_digitsOf hb
      refine ⟨_, .rgb ground hr' hg' hb', ?_⟩
      rw [paramText_rgb, hred, hgreen, hblue]
      rfl

/-! ## §3. Resolved words. -/

/-- **What a word is resolved to is read back.**  Each pair of a resolved word agrees with the one
effect of the code that it opens by, and the colors among the numbers of that code have components
from 0 to 255. -/
theorem resolve_readBack {theme : Theme} {tag word : Text} {pairs : List StylePair}
    (h : Style.resolve theme tag word = .ok pairs) :
    ∀ pair ∈ pairs, pair.ReadBack
      ∧ ∃ ns, Sgr.OpeningNumbers ns ∧ pair.opens = Sgr.code (Text.join [';'] (ns.map digitsOf)) :=
  fun pair hpair =>
    have hknown := resolve_known h pair hpair
    ⟨hknown.readBack, hknown.numbers⟩

/-- A role with an attribute, a background of the palette, a basic color and the default color. -/
theorem resolve_readBack_role :
    let theme : Theme := ⟨fun _ => "dim on_navy_blue green on_default".toList⟩
    let pairs : List StylePair :=
      [⟨"\x1b[2m".toList, "\x1b[22m".toList⟩,
       ⟨"\x1b[48;5;17m".toList, "\x1b[49m".toList⟩,
       ⟨"\x1b[32m".toList, "\x1b[39m".toList⟩,
       ⟨"\x1b[49m".toList, "\x1b[49m".toList⟩]
    Style.resolve theme [] "link".toList = .ok pairs
      ∧ ∀ pair ∈ pairs, pair.ReadBack
        ∧ ∃ ns, Sgr.OpeningNumbers ns
            ∧ pair.opens = Sgr.code (Text.join [';'] (ns.map digitsOf)) := by
  intro theme pairs
  have h : Style.resolve theme [] "link".toList = .ok pairs := by with_unfolding_all decide
  exact ⟨h, resolve_readBack h⟩

end TermMarkup
