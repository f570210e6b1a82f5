/-
  TermMarkup.Proofs.Codes
  ───────────────────────
  CODES READ BACK.  The effect of a code switches a dimension on by a code of
  its own, the CANONICAL code of the effect; reading that code gives the effect
  again.  The same holds for the code that closes a channel.

    • `ofCode_canonical` — every effect of a readable code is canonical,
    • `ofCode_closeCode`, `ofCode_reset` — closes and the reset,
    • `ofCode_palette`, `ofCode_rgb` — extended colors.
-/
import TermMarkup.Proofs.Fields
import TermMarkup.Proofs.Outcome
import TermMarkup.Sgr.Effect
import TermMarkup.Mark
import Mathlib.Data.List.Basic

namespace TermMarkup

/-! ## §1. Parameters of a code. -/

theorem paramsOf?_code (p : Text) : Effect.paramsOf? (Sgr.code p) = some p := by
  have h : Text.after? [Sgr.escape, '['] (Sgr.code p) = some (p ++ ['m']) := by
    simp [Text.after?, Sgr.code]
  unfold Effect.paramsOf?
  rw [h]
  simp

theorem ofCode_code (p : Text) :
    Effect.ofCode (Sgr.code p) = Effect.ofParams (Text.fields ';' p) := by
  unfold Effect.ofCode
  rw [paramsOf?_code]

/-- A text of decimal digits in ASCII, as parameters are. -/
def Text.IsDigits (t : Text) : Prop := ∀ c ∈ t, c.isDigit = true

theorem Text.IsDigits.not_separator {t : Text} (h : t.IsDigits) :
    ∀ c ∈ t, (c == ';') = false := by
  intro c hc
  have hd := h c hc
  by_cases heq : c = ';'
  · subst heq
    exact absurd hd (by decide)
  · simpa using heq

theorem isDigits_singleton {c : Char} (h : c.isDigit = true) : Text.IsDigits [c] := by
  intro d hd
  obtain rfl := List.mem_singleton.mp hd
  exact h

theorem Text.IsDigits.isParam {t : Text} (h : t.IsDigits) : t.all isParamChar = true := by
  rw [List.all_eq_true]
  intro c hc
  simp [isParamChar, h c hc]

theorem digitsOf_isDigits (n : Nat) : (digitsOf n).IsDigits := by
  intro c hc
  exact Nat.isDigit_of_mem_toDigits (by decide) (by decide) hc

theorem decimalOf_isDigits {i : Int} (h : 0 ≤ i) : (decimalOf i).IsDigits := by
  unfold decimalOf
  rw [if_neg (by omega)]
  exact digitsOf_isDigits _

@[simp] theorem decimalOf_natCast (n : Nat) : decimalOf (n : Int) = digitsOf n := by
  unfold decimalOf
  rw [if_neg (by omega), Int.natAbs_natCast]

/-- The parameters of a code are runs of digits. -/
theorem fields_isDigits {p : Text} (hp : p.all isParamChar = true) :
    ∀ field ∈ Text.fields ';' p, field.IsDigits := by
  intro field hf c hc
  obtain ⟨hmem, hsep⟩ := Text.mem_fieldsBy hf c hc
  have hparam := List.all_eq_true.mp hp c hmem
  simpa [isParamChar, hsep] using hparam

/-- The parameters written with separators are read as they were. -/
theorem fields_digits {ps : List Text} (hne : ps ≠ []) (h : ∀ p ∈ ps, p.IsDigits) :
    Text.fields ';' (Text.join [';'] ps) = ps := by
  rw [Text.fields_join hne]
  have hone : ∀ p ∈ ps, Text.fields ';' p = [p] :=
    fun p hp => Text.fieldsBy_of_none (h p hp).not_separator
  rw [List.flatMap_congr hone]
  exact List.flatMap_singleton' ps

theorem join_isParam {ps : List Text} (h : ∀ p ∈ ps, p.IsDigits) :
    (Text.join [';'] ps).all isParamChar = true := by
  induction ps with
  | nil => rfl
  | cons p ps ih =>
    have hp := (h p List.mem_cons_self).isParam
    cases ps with
    | nil =>
      rw [Text.join_singleton]
      exact hp
    | cons q ps =>
      have hrest := ih fun r hr => h r (List.mem_cons_of_mem _ hr)
      rw [Text.join_cons_cons, List.all_append, List.all_append, Bool.and_eq_true,
        Bool.and_eq_true]
      exact ⟨hp, by decide, hrest⟩

/-! ## §2. Codes with one effect. -/

theorem ofCode_closeCode (ch : Channel) :
    Effect.ofCode ch.closeCode = .ok [.switchOff ch] := by
  revert ch
  have h : ∀ ch ∈ Channel.all, Effect.ofCode ch.closeCode = .ok [.switchOff ch] := by
    decide +kernel
  intro ch
  exact h ch (by cases ch <;> decide)

theorem ofCode_reset : Effect.ofCode Sgr.reset = .ok [.reset] := by decide +kernel

/-- A dimension that extended colors set. -/
def Dimension.IsColor (d : Dimension) : Prop := d = .foreground ∨ d = .background

theorem ofParams_extended {param : Text} {rest : List Text} {n mode : Int} {d : Dimension}
    (hn : Effect.paramValue param = .ok n) (hd : Effect.extendedColor? n = some d)
    (hm : Effect.paramValue (rest.headD []) = .ok mode) :
    Effect.ofParams (param :: rest)
      = return (Effect.extended d mode rest).1.toList
          ++ (← Effect.ofParams (rest.drop (Effect.extended d mode rest).2)) := by
  rw [Effect.ofParams, hn, ok_bind, hd]
  dsimp only
  rw [hm]
  rfl

/-- **An extended color takes its parameters**, and what follows them is read by itself. -/
theorem ofParams_color {d : Dimension} (hd : d.IsColor) {mode : Text} {n : Int}
    {args rest : List Text} {e : Effect} (hm : Effect.paramValue mode = .ok n)
    (he : Effect.extended d n (mode :: args ++ rest) = (some e, (mode :: args).length)) :
    Effect.ofParams (digitsOf d.opening :: mode :: args ++ rest)
      = (Effect.ofParams rest).map (e :: ·) := by
  have hopen : Effect.paramValue (digitsOf d.opening) = .ok d.opening := by
    rcases hd with rfl | rfl <;> decide
  have hcolor : Effect.extendedColor? d.opening = some d := by
    rcases hd with rfl | rfl <;> decide
  have hhead : Effect.paramValue ((mode :: args ++ rest).headD []) = .ok n := hm
  rw [List.cons_append, ofParams_extended hopen hcolor hhead, he, List.drop_left]
  cases Effect.ofParams rest <;> rfl

/-- **An extended color that takes all parameters is the only effect of its code.** -/
theorem ofCode_extended {d : Dimension} (hd : d.IsColor) {mode : Text} {n : Int} {args : List Text}
    {e : Effect} (hm : Effect.paramValue mode = .ok n) (hmode : mode.IsDigits)
    (hargs : ∀ p ∈ args, p.IsDigits)
    (he : Effect.extended d n (mode :: args) = (some e, (mode :: args).length)) :
    Effect.ofCode (Sgr.code (Text.join [';'] (digitsOf d.opening :: mode :: args))) = .ok [e] := by
  have hdigits : ∀ p ∈ digitsOf d.opening :: mode :: args, p.IsDigits := by
    intro p hp
    rcases List.mem_cons.mp hp with rfl | hp
    · exact digitsOf_isDigits _
    · rcases List.mem_cons.mp hp with rfl | hp
      · exact hmode
      · exact hargs p hp
  have hread : Effect.ofParams (digitsOf d.opening :: mode :: args ++ [])
      = (Effect.ofParams []).map (e :: ·) := by
    refine ofParams_color hd hm ?_
    rwa [List.append_nil]
  rw [List.append_nil, Effect.ofParams] at hread
  rw [ofCode_code, fields_digits (by simp) hdigits, hread]
  rfl

theorem ofCode_palette {d : Dimension} (hd : d.IsColor) {index : Text} (hi : index.IsDigits) :
    Effect.ofCode (Sgr.code (Text.join [';'] [digitsOf d.opening, ['5'], index]))
      = .ok [.switchOn d (Text.join [';'] [digitsOf d.opening, ['5'], index])] :=
  ofCode_extended hd (n := 5) (by decide) (isDigits_singleton (by decide)) (by simpa using hi) rfl

theorem ofCode_rgb {d : Dimension} (hd : d.IsColor) {r g b : Text} (hr : r.IsDigits)
    (hg : g.IsDigits) (hb : b.IsDigits) :
    Effect.ofCode (Sgr.code (Text.join [';'] [digitsOf d.opening, ['2'], r, g, b]))
      = .ok [.switchOn d (Text.join [';'] [digitsOf d.opening, ['2'], r, g, b])] :=
  ofCode_extended hd (n := 2) (by decide) (isDigits_singleton (by decide))
    (by simpa using ⟨hr, hg, hb⟩) rfl

/-! ## §3. The effects of a readable code. -/

namespace Effect

/-- What the effect switches on, it switches on by a code that has just this effect. -/
def Canonical : Effect → Prop
  | switchOn d params =>
    params.all isParamChar = true ∧ ofCode (Sgr.code params) = .ok [switchOn d params]
  | _ => True

instance : (e : Effect) → Decidable e.Canonical
  | reset => .isTrue trivial
  | switchOn _ _ => inferInstanceAs (Decidable (_ ∧ _))
  | switchOff _ => .isTrue trivial

/-- The numbers that have an effect of their own are few. -/
theorem ofNumber?_range {n : Int} {e : Effect} (h : ofNumber? n = some e) : 0 ≤ n ∧ n < 108 := by
  unfold ofNumber? at h
  split at h
  · omega
  · split at h
    · next d hd =>
      have hn : n = d.opening := by simpa using List.find?_some hd
      have hlt : ∀ d : Dimension, d.opening < 108 := by intro d; cases d <;> decide
      have := hlt d
      omega
    · split at h
      · next ch hch =>
        have hn : n = ch.closing := by simpa using List.find?_some hch
        have hlt : ∀ ch : Channel, ch.closing < 108 := by intro ch; cases ch <;> decide
        have := hlt ch
        omega
      · unfold basicColor? at h
        split at h
        · omega
        · split at h
          · omega
          · simp at h

theorem ofNumber?_canonical {n : Int} {e : Effect} (h : ofNumber? n = some e) : e.Canonical := by
  -- no number from 108 on has an effect, so the others can be gone through one by one
  have hall : ∀ k : Fin 108, ∀ e ∈ ofNumber? (k.val : Int), e.Canonical := by decide +kernel
  obtain ⟨h0, h108⟩ := ofNumber?_range h
  have hk : ((⟨n.toNat, by omega⟩ : Fin 108).val : Int) = n := Int.toNat_of_nonneg h0
  exact hall ⟨n.toNat, by omega⟩ e (by rw [hk]; exact h)

theorem extended_canonical {d : Dimension} (hd : d.IsColor) {mode : Int} {params : List Text}
    (hp : ∀ p ∈ params, p.IsDigits) {e : Effect} {taken : Nat}
    (h : extended d mode params = (some e, taken)) : e.Canonical := by
  unfold extended at h
  split at h
  · next _ index rest =>
    have hindex := hp index (by simp)
    split at h
    · -- mode 5: one parameter, an index of the palette
      obtain ⟨h, -⟩ := Prod.mk.inj h
      obtain rfl := Option.some.inj h
      refine ⟨join_isParam ?_, ofCode_palette hd hindex⟩
      simpa using ⟨digitsOf_isDigits _, isDigits_singleton (by decide), hindex⟩
    · split at h
      · next _ g b _ =>
        have hg := hp g (by simp)
        have hb := hp b (by simp)
        split at h
        · -- mode 2: three parameters, of which the first was taken for an index above
          obtain ⟨h, -⟩ := Prod.mk.inj h
          obtain rfl := Option.some.inj h
          refine ⟨join_isParam ?_, ofCode_rgb hd hindex hg hb⟩
          simpa using ⟨digitsOf_isDigits _, isDigits_singleton (by decide), hindex, hg, hb⟩
        · simp at h
      · simp at h
  · simp at h

theorem extendedColor?_isColor {n : Int} {d : Dimension} (h : extendedColor? n = some d) :
    d.IsColor := by
  unfold extendedColor? at h
  split at h
  · exact .inl (Option.some.inj h).symm
  · split at h
    · exact .inr (Option.some.inj h).symm
    · simp at h

/-- **What holds of single numbers and of extended colors holds of all effects of a list.** -/
theorem forall_ofParams {P : Effect → Prop} (hnumber : ∀ n e, ofNumber? n = some e → P e)
    (hextended : ∀ d mode params e taken, d.IsColor → (∀ p ∈ params, p.IsDigits) →
      extended d mode params = (some e, taken) → P e)
    (params : List Text) (hp : ∀ p ∈ params, p.IsDigits) {es : List Effect}
    (h : ofParams params = .ok es) : ∀ e ∈ es, P e := by
  -- along the reading itself: an extended color takes a varying number of parameters
  induction params using ofParams.induct generalizing es with
  | case1 =>
    rw [ofParams] at h
    obtain rfl := Except.ok.inj h
    simp
  | case2 param rest ih1 ih2 =>
    have hrest : ∀ p ∈ rest, p.IsDigits := fun p h => hp p (List.mem_cons_of_mem _ h)
    rw [ofParams] at h
    obtain ⟨n, hn, h⟩ := bind_eq_ok.mp h
    cases hc : extendedColor? n with
    | none =>
      rw [hc] at h
      obtain ⟨more, hmore, h⟩ := bind_eq_ok.mp h
      obtain rfl := Except.ok.inj h
      intro e he
      rcases List.mem_append.mp he with he | he
      · exact hnumber n e (Option.mem_toList.mp he)
      · exact ih1 hrest hmore e he
    | some d =>
      rw [hc] at h
      obtain ⟨mode, hmode, h⟩ := bind_eq_ok.mp h
      obtain ⟨more, hmore, h⟩ := bind_eq_ok.mp h
      obtain rfl := Except.ok.inj h
      intro e he
      rcases List.mem_append.mp he with he | he
      · exact hextended d mode rest e _ (extendedColor?_isColor hc) hrest
          (Prod.ext (Option.mem_toList.mp he) rfl)
      · exact ih2 _ (fun p h => hrest p (List.mem_of_mem_drop h)) hmore e he

/-- **Every effect of a parameter list is canonical.** -/
theorem ofParams_canonical (params : List Text) (hp : ∀ p ∈ params, p.IsDigits) {es : List Effect}
    (h : ofParams params = .ok es) : ∀ e ∈ es, e.Canonical :=
  forall_ofParams (fun _ _ hn => ofNumber?_canonical hn)
    (fun _ _ _ _ _ hd hdigits he => extended_canonical hd hdigits he) params hp h

/-- **Every effect of a readable code is canonical.** -/
theorem ofCode_canonical {p : Text} (hp : p.all isParamChar = true) {es : List Effect}
    (h : ofCode (Sgr.code p) = .ok es) : ∀ e ∈ es, e.Canonical :=
  ofParams_canonical _ (fields_isDigits hp) (ofCode_code p ▸ h)

end Effect

end TermMarkup
