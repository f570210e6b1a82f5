/-
  TermMarkup.Proofs.Compiled
  ──────────────────────────
  THE ITEMS OF COMPILED TOKENS.  They are COHERENT: the codes of a style run
  turn the pen of the styles before it into the pen of the styles after it, and
  these styles are sound.  Their characters are those of the literal tokens.

    • `Item.Coherent` — coherent items, from the styles before them,
    • `ofTokens_coherent` — the items of compiled tokens are coherent,
    • `ofTokens_plain` — and have no escape character that the tokens have not,
    • `ofTokens_append`, `ofTokens_active` — tokens after other tokens begin where
      these leave the stack, and the open styles are those on it,
    • `wrap_eq_ok`, `render_eq_ok` — wrapped text is a layout of compiled tokens, and
      rendered text what they write.
-/
import TermMarkup.Proofs.LayoutMoves
import TermMarkup.Proofs.StackPen

namespace TermMarkup

/-! ## §1. Coherent items. -/

namespace Item

/-- The styles that are open after an item. -/
def after (active : List Entry) : Item → List Entry
  | char _ => active
  | style _ active => active

/-- The codes of style runs turn the pen of the styles before them into that of the styles after
them. -/
def Coherent (active : List Entry) : List Item → Prop
  | [] => True
  | char _ :: rest => Coherent active rest
  | style codes next :: rest =>
    (∀ e ∈ next, e.Sound)
      ∧ (∃ f, codes.Turns f ∧ f (Pen.ofEntries active) = Pen.ofEntries next)
      ∧ Coherent next rest

theorem coherent_append {active : List Entry} {xs ys : List Item} :
    Coherent active (xs ++ ys) ↔ Coherent active xs ∧ Coherent (xs.foldl after active) ys := by
  induction xs generalizing active with
  | nil => exact ⟨fun h => ⟨trivial, h⟩, fun h => h.2⟩
  | cons x xs ih =>
    cases x with
    | char c => exact ih
    | style codes next =>
      show _ ∧ _ ∧ Coherent next (xs ++ ys) ↔ (_ ∧ _ ∧ Coherent next xs) ∧ _
      rw [ih, and_assoc, and_assoc]
      rfl

/-- Soundness of the open styles is kept along coherent items. -/
theorem Coherent.sound {xs : List Item} {active : List Entry} (h : Coherent active xs)
    (hs : ∀ e ∈ active, e.Sound) : ∀ e ∈ xs.foldl after active, e.Sound := by
  induction xs generalizing active with
  | nil => exact hs
  | cons x xs ih =>
    cases x with
    | char c => exact ih h hs
    | style codes next => exact ih h.2.2 h.1

/-- Characters leave the open styles as they are. -/
theorem foldl_after_chars (active : List Entry) (t : Text) :
    (t.map char).foldl after active = active := by
  induction t with
  | nil => rfl
  | cons c t ih => exact ih

theorem coherent_chars (active : List Entry) (t : Text) : Coherent active (t.map char) := by
  induction t with
  | nil => trivial
  | cons c t ih => exact ih

end Item

/-- The open styles after a run, by its items. -/
theorem foldl_after_run (r : Run) (active : List Entry) :
    r.items.foldl Item.after active = r.after active := by
  cases r with
  | text t => exact Item.foldl_after_chars active t
  | style codes next => rfl

theorem foldl_after_runs (rs : List Run) (active : List Entry) :
    (rs.flatMap Run.items).foldl Item.after active = rs.foldl Run.after active := by
  induction rs generalizing active with
  | nil => rfl
  | cons r rs ih => rw [List.flatMap_cons, List.foldl_append, foldl_after_run, ih, List.foldl_cons]

/-- The open styles after a move are those after the items that it takes in. -/
theorem Move.active_eq {m : Measure} {s s' : Spot} {w : List Material} {p : List Placed}
    (h : Move m s w p s') :
    s'.active = (w.flatMap Material.items).foldl Item.after s.active := by
  cases h with
  | style codes active => rfl
  | @keep t kept hkept hfits =>
    rw [List.flatMap_singleton]
    exact (foldl_after_runs [.text t] s.active).symm
  | drop t =>
    rw [List.flatMap_singleton]
    exact (foldl_after_runs [.text t] s.active).symm
  | @solid parts hfits =>
    rw [List.flatMap_singleton]
    exact (foldl_after_runs parts s.active).symm
  | newline => rfl
  | wrap hcolumn => rfl

/-- As are those after a run of moves. -/
theorem Lays.active_eq {m : Measure} {s s' : Spot} {ws : List Material} {ps : List Placed}
    (h : Lays m s ws ps s') :
    s'.active = (ws.flatMap Material.items).foldl Item.after s.active := by
  induction h with
  | stay s => rfl
  | move hmove _ ih => rw [ih, hmove.active_eq, List.flatMap_append, List.foldl_append]

/-! ## §2. Compiled tokens. -/

section

variable {theme : Theme} {ts us : List Token} {rs : List Run} {s : Stack}

/-- **The items of compiled tokens are coherent.** -/
theorem ofTokens_coherent (h : Run.ofTokens theme s ts = .ok rs) (hs : s.Sound)
    (hts : ∀ tok ∈ ts, tok.CodeFormed) : Item.Coherent s.entries (rs.flatMap Run.items) := by
  induction ts generalizing s rs with
  | nil =>
    obtain rfl := Except.ok.inj h
    trivial
  | cons tok ts ih =>
    have hts' := fun x hx => hts x (List.mem_cons_of_mem _ hx)
    rcases ofTokens_cons h with
      ⟨u, rest, rfl, hrest, rfl⟩ | ⟨codes, next, rest, -, happly, hrest, rfl⟩
    · rw [List.flatMap_cons]
      refine Item.coherent_append.mpr ⟨Item.coherent_chars _ u, ?_⟩
      rw [foldl_after_run]
      exact ih hrest hs hts'
    · obtain ⟨hnext, hturns⟩ := apply_turns hs (hts tok List.mem_cons_self) happly
      exact ⟨hnext, hturns, ih hrest hnext hts'⟩

/-- The characters of compiled tokens are characters of literal tokens. -/
theorem exists_literal_of_item (h : Run.ofTokens theme s ts = .ok rs) {c : Char}
    (hc : Item.char c ∈ rs.flatMap Run.items) : ∃ u, Token.literal u ∈ ts ∧ c ∈ u := by
  obtain ⟨r, hr, hc⟩ := List.mem_flatMap.mp hc
  cases r with
  | text u =>
    obtain ⟨d, hd, heq⟩ := List.mem_map.mp hc
    obtain rfl := Item.char.inj heq
    exact ⟨u, ofTokens_text h hr, hd⟩
  | style codes next => exact nomatch List.mem_singleton.mp hc

/-- **Compiled tokens have no escape character that the literal tokens have not.** -/
theorem ofTokens_plain (h : Run.ofTokens theme s ts = .ok rs)
    (hplain : ∀ u, Token.literal u ∈ ts → Sgr.escape ∉ u) :
    Item.char Sgr.escape ∉ rs.flatMap Run.items := by
  intro hmem
  obtain ⟨u, hu, hescape⟩ := exists_literal_of_item h hmem
  exact hplain u hu hescape

/-- **Compiled tokens fall into those of their parts**: later ones begin where the first leave the
stack. -/
theorem ofTokens_append (h : Run.ofTokens theme s (ts ++ us) = .ok rs) :
    ∃ front back, Run.ofTokens theme s ts = .ok front
      ∧ Run.ofTokens theme (s.feed theme ts).2 us = .ok back ∧ rs = front ++ back := by
  induction ts generalizing s rs with
  | nil => exact ⟨[], rs, rfl, h, rfl⟩
  | cons tok ts ih =>
    rcases ofTokens_cons h with
      ⟨t, rest, rfl, hrest, rfl⟩ | ⟨codes, next, rest, -, happly, hrest, rfl⟩
    · obtain ⟨front, back, hfront, hback, rfl⟩ := ih hrest
      exact ⟨.text t :: front, back, bind_eq_ok.mpr ⟨front, hfront, rfl⟩, hback, rfl⟩
    · obtain ⟨front, back, hfront, hback, rfl⟩ := ih hrest
      refine ⟨_, back, ofTokens_style happly hfront, ?_, rfl⟩
      rw [feed_next happly]
      exact hback

/-- Parts that compile make tokens that compile. -/
theorem ofTokens_appended {front back : List Run} (hfront : Run.ofTokens theme s ts = .ok front)
    (hback : Run.ofTokens theme (s.feed theme ts).2 us = .ok back) :
    Run.ofTokens theme s (ts ++ us) = .ok (front ++ back) := by
  induction ts generalizing s front with
  | nil =>
    obtain rfl := Except.ok.inj hfront
    exact hback
  | cons tok ts ih =>
    rcases ofTokens_cons hfront with
      ⟨t, rest, rfl, hrest, rfl⟩ | ⟨codes, next, rest, -, happly, hrest, rfl⟩
    · exact bind_eq_ok.mpr ⟨rest ++ back, ih hrest hback, rfl⟩
    · rw [feed_next happly] at hback
      exact ofTokens_style happly (ih hrest hback)

/-- The styles that are open after compiled tokens are those on the stack. -/
theorem ofTokens_active (h : Run.ofTokens theme s ts = .ok rs) :
    rs.foldl Run.after s.entries = (s.feed theme ts).2.entries := by
  induction ts generalizing s rs with
  | nil =>
    obtain rfl := Except.ok.inj h
    rfl
  | cons tok ts ih =>
    rcases ofTokens_cons h with
      ⟨t, rest, rfl, hrest, rfl⟩ | ⟨codes, next, rest, -, happly, hrest, rfl⟩
    · show rest.foldl Run.after s.entries = (s.feed theme ts).2.entries
      exact ih hrest
    · rw [feed_next happly]
      exact ih hrest

end

/-- Wrapped text is a layout of the compiled tokens. -/
theorem wrap_eq_ok {theme : Theme} {t wrapped : Text} {ts : List Token} (hts : t.tokens = .ok ts)
    {width : Int} {threshold? : Option Int} (h : Text.wrap theme t width threshold? = .ok wrapped) :
    ∃ rs, Text.runs theme t = .ok rs ∧ Run.ofTokens theme Stack.empty ts = .ok rs
      ∧ wrapped = layout ⟨width, threshold?.getD width⟩ rs := by
  obtain ⟨rs, hruns, h⟩ := bind_eq_ok.mp h
  obtain ⟨ts', hts', hcompiled⟩ := bind_eq_ok.mp hruns
  obtain rfl := Except.ok.inj (hts.symm.trans hts')
  exact ⟨rs, hruns, hcompiled, (Except.ok.inj h).symm⟩

/-- Rendered text is what the compiled tokens write, and the end of what they leave open. -/
theorem render_eq_ok {theme : Theme} {t rendered : Text} (h : t.render theme = .ok rendered) :
    ∃ ts rs, t.tokens = .ok ts ∧ t.runs theme = .ok rs
      ∧ Run.ofTokens theme Stack.empty ts = .ok rs
      ∧ rendered = rs.flatMap Run.written ++ Text.ending (rs.foldl Run.after []) := by
  obtain ⟨rs, hruns, h⟩ := bind_eq_ok.mp h
  obtain ⟨ts, hts, hcompiled⟩ := bind_eq_ok.mp hruns
  exact ⟨ts, rs, hts, hruns, hcompiled, (Except.ok.inj h).symm⟩

end TermMarkup
