/-
  TermMarkup.Proofs.StyleCodes
  ────────────────────────────
  THE PAIRS THAT STYLE WORDS STAND FOR.  Whatever a word is resolved to, each
  pair opens by a code with ONE effect, on a single channel, and closes by the
  code of that channel.  An opening need not switch anything on: that of the
  terminal's own default color switches its channel off.

    • `Effect.Pairs` — an effect, its code, and the code of its channel,
    • `ofSpec_inRange` — colors have components from 0 to 255,
    • `StylePair.Known`, `resolve_known` — the pairs that there are,
    • `resolve_pairs` — every pair of a resolved word has its effect.
-/
import TermMarkup.Proofs.Codes
import TermMarkup.Proofs.ColorForms
import TermMarkup.Style

namespace TermMarkup

/-! ## §1. Effects and pairs. -/

/-- The channel that an effect acts on; a reset acts on all of them. -/
def Effect.channel? : Effect → Option Channel
  | reset => none
  | switchOn dimension _ => some dimension.channel
  | switchOff channel => some channel

/-- The code `opens` has the effect `e` and no other, and `closes` is the code that switches the
channel of `e` off. -/
structure Effect.Pairs (e : Effect) (opens closes : Text) : Prop where
  isCode : ∃ params, params.all isParamChar = true ∧ opens = Sgr.code params
  reads : Effect.ofCode opens = .ok [e]
  onChannel : ∃ ch, e.channel? = some ch ∧ closes = ch.closeCode

theorem Effect.Canonical.pairs {d : Dimension} {params : Text}
    (h : (Effect.switchOn d params).Canonical) :
    (Effect.switchOn d params).Pairs (Sgr.code params) d.channel.closeCode :=
  ⟨⟨params, h.1, rfl⟩, h.2, ⟨d.channel, rfl, rfl⟩⟩

theorem closeCode_isCode (ch : Channel) :
    ∃ params, params.all isParamChar = true ∧ ch.closeCode = Sgr.code params :=
  ⟨digitsOf ch.closing, (digitsOf_isDigits _).isParam, rfl⟩

/-! ## §2. Attributes. -/

theorem switch_canonical {d : Dimension} (h : d ∈ Dimension.switches) :
    (Effect.switchOn d (digitsOf d.opening)).Canonical := by
  have hall : ∀ d ∈ Dimension.switches, (Effect.switchOn d (digitsOf d.opening)).Canonical := by
    decide +kernel
  exact hall d h

/-! ## §3. Colors. -/

/-- The components of the color are those that codes know. -/
def Color.InRange : Color → Prop
  | .basic _ => True
  | .palette index => 0 ≤ index ∧ index ≤ 255
  | .rgb r g b => (0 ≤ r ∧ r ≤ 255) ∧ (0 ≤ g ∧ g ≤ 255) ∧ (0 ≤ b ∧ b ≤ 255)

theorem ground_isColor (ground : Ground) : ground.dimension.IsColor := by
  cases ground
  · exact .inl rfl
  · exact .inr rfl

/-- What the code of a color does: it sets the dimension of its ground, except that the terminal's
own default color switches the channel OFF. -/
def Color.effect (color : Color) (ground : Ground) : Effect :=
  if color = .basic .default then .switchOff ground.dimension.channel
  else .switchOn ground.dimension (Sgr.paramText (color.params ground))

theorem basic_canonical (color : BasicColor) (ground : Ground) :
    ((Color.basic color).effect ground).Canonical := by
  cases color <;> cases ground <;> decide +kernel

/-- The parameters of the code of a palette color. -/
theorem paramText_palette (index : Int) (ground : Ground) :
    Sgr.paramText ((Color.palette index).params ground)
      = Text.join [';'] [digitsOf ground.dimension.opening, ['5'], decimalOf index] := by
  simp [Sgr.paramText, Color.params, Sgr.Param.text]
  rfl

/-- The parameters of the code of an RGB color. -/
theorem paramText_rgb (r g b : Int) (ground : Ground) :
    Sgr.paramText ((Color.rgb r g b).params ground)
      = Text.join [';'] [digitsOf ground.dimension.opening, ['2'], decimalOf r, decimalOf g,
          decimalOf b] := by
  simp [Sgr.paramText, Color.params, Sgr.Param.text]
  rfl

theorem palette_canonical {index : Int} (h : 0 ≤ index) (ground : Ground) :
    ((Color.palette index).effect ground).Canonical := by
  have hi := decimalOf_isDigits h
  unfold Color.effect
  rw [if_neg (by simp), paramText_palette]
  refine ⟨join_isParam ?_, ofCode_palette (ground_isColor ground) hi⟩
  simpa using ⟨digitsOf_isDigits _, isDigits_singleton (by decide), hi⟩

theorem rgb_canonical {r g b : Int} (hr : 0 ≤ r) (hg : 0 ≤ g) (hb : 0 ≤ b) (ground : Ground) :
    ((Color.rgb r g b).effect ground).Canonical := by
  have hr := decimalOf_isDigits hr
  have hg := decimalOf_isDigits hg
  have hb := decimalOf_isDigits hb
  unfold Color.effect
  rw [if_neg (by simp), paramText_rgb]
  refine ⟨join_isParam ?_, ofCode_rgb (ground_isColor ground) hr hg hb⟩
  simpa using ⟨digitsOf_isDigits _, isDigits_singleton (by decide), hr, hg, hb⟩

theorem color_canonical {color : Color} (h : color.InRange) (ground : Ground) :
    (color.effect ground).Canonical := by
  cases color with
  | basic color => exact basic_canonical color ground
  | palette index => exact palette_canonical h.1 ground
  | rgb r g b => exact rgb_canonical h.1.1 h.2.1.1 h.2.2.1 ground

/-- **The code of a color has one effect, on the channel of its ground.** -/
theorem pair_pairs {color : Color} (ground : Ground) (h : color.InRange) :
    (color.effect ground).Pairs (color.pair ground).opens (color.pair ground).closes := by
  have hcanon := color_canonical h ground
  by_cases hd : color = .basic .default
  · -- the default color is the one whose opening code closes its channel
    subst hd
    refine ⟨⟨Sgr.paramText _, ?_, rfl⟩, ?_, ⟨ground.dimension.channel, ?_, rfl⟩⟩ <;>
      cases ground <;> decide +kernel
  · unfold Color.effect at hcanon ⊢
    rw [if_neg hd] at hcanon ⊢
    exact hcanon.pairs

/-! ## §4. Colors of specifications. -/

theorem index?_le {name : Text} {index : Nat} (h : Palette.index? name = some index) :
    index ≤ 255 := by
  unfold Palette.index? at h
  obtain ⟨entry, hfind, rfl⟩ := Option.map_eq_some_iff.mp h
  have hall : ∀ entry ∈ Palette.names, entry.2 ≤ 255 := by decide +kernel
  exact hall entry (List.mem_of_find?_eq_some hfind)

theorem ofTriple_inRange {spec : Text} {color : Color} (h : ColorSpec.ofTriple spec = .ok color) :
    color.InRange := by
  unfold ColorSpec.ofTriple at h
  split at h
  · simp at h
  · obtain ⟨r, -, h⟩ := bind_eq_ok.mp h
    obtain ⟨g, -, h⟩ := bind_eq_ok.mp h
    obtain ⟨b, -, h⟩ := bind_eq_ok.mp h
    split at h
    · simp at h
    · next hle =>
      obtain rfl := Except.ok.inj h
      unfold Color.InRange
      simp only [ColorSpec.maxComponent] at hle
      omega

theorem ofHex_inRange (digits : Text) : (ColorSpec.ofHex digits).InRange := by
  unfold ColorSpec.ofHex Color.InRange
  omega

theorem foreground_inRange {spec : Text} {color : Color}
    (h : ColorSpec.foreground spec = .ok color) : color.InRange := by
  have hread := h
  unfold ColorSpec.foreground at h
  split at h
  · obtain rfl := Except.ok.inj h
    trivial
  · next index _ hindex =>
    obtain rfl := Except.ok.inj h
    have := index?_le hindex
    exact ⟨Int.natCast_nonneg _, by omega⟩
  · next hbasic hpalette =>
    have hname : ColorSpec.isName spec = false := by
      unfold ColorSpec.isName
      rw [hbasic, hpalette]
      rfl
    rcases ColorSpec.foreground_cases hname hread with ⟨hindex, rfl⟩ | ⟨-, htriple⟩ | ⟨-, rfl⟩
    · have hle := (ColorSpec.isIndex_eq_true_iff.mp hindex).2.2.2
      exact ⟨Int.natCast_nonneg _, Int.ofNat_le.mpr hle⟩
    · exact ofTriple_inRange htriple
    · exact ofHex_inRange _

/-- **Colors have components from 0 to 255.** -/
theorem ofSpec_inRange {spec : Text} {ground : Ground} {color : Color}
    (h : Color.ofSpec spec ground = .ok color) : color.InRange := by
  unfold Color.ofSpec at h
  dsimp only at h
  split at h
  · exact foreground_inRange h
  · split at h
    · exact foreground_inRange h
    · simp at h

/-! ## §5. Resolved words. -/

/-- The pairs that words stand for: those of the attributes, and those of colors with components
that codes know. -/
inductive StylePair.Known : StylePair → Prop
  | switch {d : Dimension} : d ∈ Dimension.switches → Known (Style.pairOf d)
  | color {color : Color} (ground : Ground) : color.InRange → Known (color.pair ground)

/-- **A known pair has one effect and its close.** -/
theorem StylePair.Known.pairs {pair : StylePair} (h : pair.Known) :
    ∃ e : Effect, e.Pairs pair.opens pair.closes := by
  cases h with
  | switch hd => exact ⟨_, (switch_canonical hd).pairs⟩
  | color ground hcolor => exact ⟨_, pair_pairs ground hcolor⟩

theorem attribute?_known {word : Text} {pair : StylePair} (h : Style.attribute? word = some pair) :
    pair.Known := by
  unfold Style.attribute? at h
  obtain ⟨entry, hfind, rfl⟩ := Option.map_eq_some_iff.mp h
  have hall : ∀ entry ∈ Style.attributes, entry.2 ∈ Dimension.switches := by decide +kernel
  exact .switch (hall entry (List.mem_of_find?_eq_some hfind))

theorem pairOfSpec_known {spec : Text} {ground : Ground} {pair : StylePair}
    (h : Color.pairOfSpec spec ground = .ok pair) : pair.Known := by
  unfold Color.pairOfSpec at h
  obtain ⟨color, hcolor, h⟩ := bind_eq_ok.mp h
  obtain rfl := Except.ok.inj h
  exact .color ground (ofSpec_inRange hcolor)

theorem color?_known {word : Text} {pair : StylePair} (h : Style.color? word = .ok (some pair)) :
    pair.Known := by
  unfold Style.color? at h
  obtain ⟨back, -, h⟩ := bind_eq_ok.mp h
  split at h
  · obtain ⟨p, hp, h⟩ := bind_eq_ok.mp h
    obtain rfl := Option.some.inj (Except.ok.inj h)
    exact pairOfSpec_known hp
  · obtain ⟨fore, -, h⟩ := bind_eq_ok.mp h
    split at h
    · obtain ⟨p, hp, h⟩ := bind_eq_ok.mp h
      obtain rfl := Option.some.inj (Except.ok.inj h)
      exact pairOfSpec_known hp
    · simp [pure, Except.pure] at h

theorem resolvePlain_known {tag word : Text} {pair : StylePair}
    (h : Style.resolvePlain tag word = .ok pair) : pair.Known := by
  unfold Style.resolvePlain at h
  split at h
  · next hattr =>
    obtain rfl := Except.ok.inj h
    exact attribute?_known hattr
  · split at h
    · next hcolor =>
      obtain rfl := Except.ok.inj h
      exact color?_known hcolor
    · simp at h
    · simp at h

/-- **Words are resolved to known pairs.** -/
theorem resolve_known {theme : Theme} {tag word : Text} {pairs : List StylePair}
    (h : Style.resolve theme tag word = .ok pairs) : ∀ pair ∈ pairs, pair.Known := by
  unfold Style.resolve at h
  dsimp only at h
  cases hrole : theme.styleFor? word with
  | some style =>
    rw [hrole] at h
    intro pair hpair
    obtain ⟨w, -, hw⟩ := exists_of_mapM_eq_ok h pair hpair
    exact resolvePlain_known hw
  | none =>
    rw [hrole] at h
    obtain ⟨pair, hpair, h⟩ := bind_eq_ok.mp h
    obtain rfl := Except.ok.inj h
    intro pair' hpair'
    obtain rfl := List.mem_singleton.mp hpair'
    exact resolvePlain_known hpair

/-- **Every pair of a resolved word has one effect and its close.** -/
theorem resolve_pairs {theme : Theme} {tag word : Text} {pairs : List StylePair}
    (h : Style.resolve theme tag word = .ok pairs) :
    ∀ pair ∈ pairs, ∃ e : Effect, e.Pairs pair.opens pair.closes :=
  fun pair hpair => (resolve_known h pair hpair).pairs

end TermMarkup
