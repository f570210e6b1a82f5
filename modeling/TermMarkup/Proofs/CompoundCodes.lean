/-
  TermMarkup.Proofs.CompoundCodes
  ───────────────────────────────
  COMPOUND CODES.  Each effect has a code of its own, with parameters that make up
  one group: a single number, or an extended color with all that belongs to it.
  A group is read as its effect WHATEVER parameters follow it, so groups written
  one after the other in a single code are read one after the other.

    • `Effect.ownCode`, `Effect.ownParams` — the code of an effect and its group,
    • `Effect.Leads` — the group is read as the effect, and the rest by itself,
    • `Effect.Occurs.leads` — so it is for every effect of a readable code,
    • `ofCode_compound` — the code made of the groups of several effects.
-/
import TermMarkup.Proofs.Codes

namespace TermMarkup

namespace Effect

/-! ## §1. The code of an effect. -/

/-- The code of the effect: what opens it if it switches something on, else what it closes by. -/
def ownCode (e : Effect) : Text := if e.isOn then e.openCode else e.closeCode

/-- The parameters of the effect's code. -/
def ownParams (e : Effect) : Text := (paramsOf? e.ownCode).getD []

@[simp] theorem ownParams_switchOn (d : Dimension) (params : Text) :
    (switchOn d params).ownParams = params := by
  show (paramsOf? (Sgr.code params)).getD [] = _
  rw [paramsOf?_code]
  rfl

/-! ## §2. Groups of parameters. -/

/-- The parameters of the effect's code are read as the effect, whatever follows them, and what
follows is read by itself. -/
def Leads (e : Effect) : Prop :=
  ∀ rest, ofParams (Text.fields ';' e.ownParams ++ rest) = (ofParams rest).map (e :: ·)

/-- What a single number has for its effect leads. -/
theorem ofNumber?_leads {n : Int} {e : Effect} (h : ofNumber? n = some e) : e.Leads := by
  -- such a number is its own group, and starts no extended color
  have hall : ∀ k : Fin 108, ∀ e ∈ ofNumber? (k.val : Int),
      Text.fields ';' e.ownParams = [digitsOf k.val] ∧ paramValue (digitsOf k.val) = .ok (k.val : Int)
        ∧ extendedColor? (k.val : Int) = none := by
    decide +kernel
  obtain ⟨h0, h108⟩ := ofNumber?_range h
  have hk : ((⟨n.toNat, by omega⟩ : Fin 108).val : Int) = n := Int.toNat_of_nonneg h0
  obtain ⟨hgroup, hvalue, hnone⟩ := hall ⟨n.toNat, by omega⟩ e (by rw [hk]; exact h)
  rw [hk] at hvalue hnone
  intro rest
  rw [hgroup, List.singleton_append, ofParams, hvalue, ok_bind, hnone]
  dsimp only
  rw [h]
  cases ofParams rest <;> rfl

/-- An extended color leads if the group is its own: the dimension, the mode and what this takes. -/
theorem leads_color {d : Dimension} (hd : d.IsColor) {mode : Text} {n : Int} {args : List Text}
    (hm : paramValue mode = .ok n) (hdigits : ∀ p ∈ mode :: args, p.IsDigits)
    (he : ∀ rest, extended d n (mode :: args ++ rest)
      = (some (.switchOn d (Text.join [';'] (digitsOf d.opening :: mode :: args))),
          (mode :: args).length)) :
    (switchOn d (Text.join [';'] (digitsOf d.opening :: mode :: args))).Leads := by
  intro rest
  have hall : ∀ p ∈ digitsOf d.opening :: mode :: args, p.IsDigits := by
    intro p hp
    rcases List.mem_cons.mp hp with rfl | hp
    · exact digitsOf_isDigits _
    · exact hdigits p hp
  rw [ownParams_switchOn, fields_digits (List.cons_ne_nil _ _) hall]
  exact ofParams_color hd hm (he rest)

/-- What an extended color has for its effect leads. -/
theorem extended_leads {d : Dimension} (hd : d.IsColor) {mode : Int} {params : List Text}
    (hp : ∀ p ∈ params, p.IsDigits) {e : Effect} {taken : Nat}
    (h : extended d mode params = (some e, taken)) : e.Leads := by
  unfold extended at h
  split at h
  · next _ index rest =>
    have hindex := hp index (by simp)
    split at h
    · -- an index of the palette
      obtain ⟨h, -⟩ := Prod.mk.inj h
      obtain rfl := Option.some.inj h
      exact leads_color hd (n := 5) (by decide)
        (by simpa using ⟨isDigits_singleton (by decide), hindex⟩) fun rest => rfl
    · split at h
      · next _ g b _ =>
        have hg := hp g (by simp)
        have hb := hp b (by simp)
        split at h
        · -- an RGB triple
          obtain ⟨h, -⟩ := Prod.mk.inj h
          obtain rfl := Option.some.inj h
          exact leads_color hd (n := 2) (by decide)
            (by simpa using ⟨isDigits_singleton (by decide), hindex, hg, hb⟩) fun rest => rfl
        · simp at h
      · simp at h
  · simp at h

/-- The effect is one of those that some code has. -/
def Occurs (e : Effect) : Prop :=
  ∃ params es, params.all isParamChar = true ∧ ofCode (Sgr.code params) = .ok es ∧ e ∈ es

/-- **Every effect of a readable code leads.** -/
theorem Occurs.leads {e : Effect} (h : e.Occurs) : e.Leads := by
  obtain ⟨params, es, hparams, hes, hmem⟩ := h
  rw [ofCode_code] at hes
  exact forall_ofParams (fun _ _ hn => ofNumber?_leads hn)
    (fun _ _ _ _ _ hd hdigits he => extended_leads hd hdigits he) _ (fields_isDigits hparams) hes
    e hmem

/-! ## §3. Compound codes. -/

/-- **Groups one after the other are read one after the other.** -/
theorem ofParams_groups {es : List Effect} (h : ∀ e ∈ es, e.Leads) :
    ofParams (es.flatMap fun e => Text.fields ';' e.ownParams) = .ok es := by
  -- on the effects: what follows a group is read by itself
  induction es with
  | nil => rw [List.flatMap_nil, ofParams]
  | cons e es ih =>
    rw [List.flatMap_cons, h e List.mem_cons_self,
      ih fun e' he' => h e' (List.mem_cons_of_mem _ he')]
    rfl

/-- **A compound code has the effects of its groups, in their order.**  And the code that an opening
is closed by has one effect: to close by this code. -/
theorem ofCode_compound :
    (∀ es : List Effect, es ≠ [] → (∀ e ∈ es, e.Occurs) →
        ofCode (Sgr.code (Text.join [';'] (es.map ownParams))) = .ok es)
      ∧ ∀ e : Effect, e.isOn = true →
        ∃ ch, ofCode e.closeCode = .ok [.switchOff ch] ∧ (switchOff ch).closeCode = e.closeCode := by
  constructor
  · intro es hne hes
    have hne : es.map ownParams ≠ [] := fun hnil => hne (List.map_eq_nil_iff.mp hnil)
    rw [ofCode_code, Text.fields_join hne, List.flatMap_map]
    exact ofParams_groups fun e he => (hes e he).leads
  · intro e he
    cases e with
    | reset => exact nomatch he
    | switchOff ch => exact nomatch he
    | switchOn d params => exact ⟨d.channel, ofCode_closeCode d.channel, rfl⟩

/-- The effects of a code with leading zeros, an empty index and an empty parameter: the compound
code is another one, with the same effects. -/
theorem ofCode_compound_mixed :
    let es : List Effect :=
      [.switchOn .foreground "38;5;".toList, .switchOn .bold "1".toList, .reset,
       .switchOn .background "48;2;007;;1".toList, .switchOff .intensity]
    (es ≠ [] ∧ ∀ e ∈ es, e.Occurs)
      ∧ ofCode "\x1b[38;5;;1;0;48;2;007;;1;22m".toList = .ok es
      ∧ ∃ ch, ofCode (switchOn .bold "1".toList).closeCode = .ok [.switchOff ch]
          ∧ (switchOff ch).closeCode = (switchOn .bold "1".toList).closeCode := by
  intro es
  have hread : ofCode "\x1b[38;05;;01;;48;2;007;;1;22m".toList = .ok es := by decide +kernel
  have hoccurs : ∀ e ∈ es, e.Occurs :=
    fun e he => ⟨"38;05;;01;;48;2;007;;1;22".toList, es, by decide, hread, he⟩
  obtain ⟨hcompound, hcloses⟩ := ofCode_compound
  exact ⟨⟨List.cons_ne_nil _ _, hoccurs⟩, hcompound es (List.cons_ne_nil _ _) hoccurs,
    hcloses _ rfl⟩

end Effect

end TermMarkup
