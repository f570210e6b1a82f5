/-
  TermMarkup.Proofs.EntryPen
  ──────────────────────────
  THE PEN THAT OPEN STYLES DESCRIBE.  An effect acts on each dimension by itself
  and every entry has one effect on one channel, so what a list of entries does
  to a dimension is what those entries do that touch it, in their order.

    • `Text.Turns` — a text of codes, as a function on pens,
    • `Pen.ofEntries` — the pen after the opening codes of a list of entries,
    • `foldl_opened_filter` — entries that do not touch a dimension may be left
      out,
    • `turns_openings`, `turns_closings` — the codes of a list of entries,
    • `foldl_closed_ofEntries` — closing all entries leaves nothing on.
-/
import TermMarkup.Proofs.Coded
import TermMarkup.Proofs.StyleCodes
import TermMarkup.Proofs.Terminal
import TermMarkup.Stack

namespace TermMarkup

/-! ## §1. Texts of codes as functions on pens. -/

/-- The text consists of codes that turn a pen into another by `f`, whatever follows. -/
structure Text.Turns (t : Text) (f : Pen → Pen) : Prop where
  coded : Coded [] t
  effects : ∃ es : List Effect, t.Emits (es.map .effect) ∧ ∀ pen : Pen, es.foldl Pen.act pen = f pen

namespace Text.Turns

theorem nil : Turns [] id := ⟨.nil, [], Emits.nil, fun _ => rfl⟩

theorem append {a b : Text} {f g : Pen → Pen} (ha : Turns a f) (hb : Turns b g) :
    Turns (a ++ b) (g ∘ f) := by
  obtain ⟨es, hes, hf⟩ := ha.effects
  obtain ⟨es', hes', hg⟩ := hb.effects
  refine ⟨ha.coded.append hb.coded, es ++ es', ?_, ?_⟩
  · rw [List.map_append]
    exact hes.append hes'
  · intro pen
    rw [List.foldl_append, hf, hg]
    rfl

theorem code {p : Text} {es : List Effect} (hp : p.all isParamChar = true)
    (he : Effect.ofCode (Sgr.code p) = .ok es) :
    Turns (Sgr.code p) fun pen => es.foldl Pen.act pen :=
  ⟨.sgr hp, es, Emits.code hp he, fun _ => rfl⟩

theorem flatMap {α : Type} {text : α → Text} {f : Pen → α → Pen} {xs : List α}
    (h : ∀ x ∈ xs, Turns (text x) fun pen => f pen x) :
    Turns (xs.flatMap text) fun pen => xs.foldl f pen := by
  induction xs with
  | nil => exact nil
  | cons x xs ih =>
    rw [List.flatMap_cons]
    exact (h x List.mem_cons_self).append (ih fun y hy => h y (List.mem_cons_of_mem _ hy))

theorem after {t : Text} {f : Pen → Pen} (h : Turns t f) (pen : Pen) :
    pen.after t = .ok (f pen) := by
  obtain ⟨es, hes, hf⟩ := h.effects
  rw [hes.after, Pen.follow_effects, hf]

theorem reset : Turns Sgr.reset fun _ => Pen.blank :=
  code (by decide) ofCode_reset

end Text.Turns

/-! ## §2. One entry. -/

/-- The codes of the entry have an effect and its close; an entry by SGR has the name of the
dimension that it sets. -/
structure Entry.Sound (e : Entry) : Prop where
  pairs : ∃ eff : Effect, eff.Pairs e.opens e.closes
  named : e.origin = .ansi →
    ∃ d params, (Effect.switchOn d params).Pairs e.opens e.closes ∧ e.name = d.name

/-- The pen after an entry's opening code. -/
def Pen.opened (pen : Pen) (e : Entry) : Pen :=
  match Effect.ofCode e.opens with
  | .ok es => es.foldl Pen.act pen
  | .error _ => pen

/-- The pen after an entry's closing code. -/
def Pen.closed (pen : Pen) (e : Entry) : Pen := fun d =>
  if d.channel.closeCode = e.closes then none else pen d

theorem opened_eq {e : Entry} {eff : Effect} (h : eff.Pairs e.opens e.closes) (pen : Pen) :
    pen.opened e = pen.act eff := by
  unfold Pen.opened
  rw [h.reads]
  rfl

theorem closeCode_inj {a b : Channel} (h : a.closeCode = b.closeCode) : a = b := by
  revert h
  cases a <;> cases b <;> decide

theorem name_inj {a b : Dimension} (h : a.name = b.name) : a = b := by
  revert h
  cases a <;> cases b <;> decide

/-- An effect acts on each dimension by itself. -/
theorem act_congr {p q : Pen} {d : Dimension} (h : p d = q d) (e : Effect) :
    p.act e d = q.act e d := by
  cases e with
  | reset => rfl
  | switchOn d' params =>
    show (if d = d' then _ else p d) = if d = d' then _ else q d
    rw [h]
  | switchOff ch =>
    show (if d.channel = ch then _ else p d) = if d.channel = ch then _ else q d
    rw [h]

theorem opened_congr {e : Entry} (hs : e.Sound) {p q : Pen} {d : Dimension} (h : p d = q d) :
    p.opened e d = q.opened e d := by
  obtain ⟨eff, heff⟩ := hs.pairs
  rw [opened_eq heff, opened_eq heff]
  exact act_congr h eff

/-- **An entry does not touch dimensions of other channels.** -/
theorem opened_of_ne {e : Entry} (hs : e.Sound) {d : Dimension}
    (hd : e.closes ≠ d.channel.closeCode) (pen : Pen) : pen.opened e d = pen d := by
  obtain ⟨eff, heff⟩ := hs.pairs
  obtain ⟨ch, hch, hcloses⟩ := heff.onChannel
  have hne : d.channel ≠ ch := by
    rintro rfl
    exact hd hcloses
  rw [opened_eq heff]
  cases eff with
  | reset => exact nomatch hch
  | switchOn d' params =>
    obtain rfl := Option.some.inj hch
    have hd' : d ≠ d' := fun h => hne (h ▸ rfl)
    show (if d = d' then _ else pen d) = _
    rw [if_neg hd']
  | switchOff ch' =>
    obtain rfl := Option.some.inj hch
    show (if d.channel = ch' then _ else pen d) = _
    rw [if_neg hne]

/-- An entry by SGR touches only the dimension that it is named for. -/
theorem opened_of_name_ne {e : Entry} (hs : e.Sound) (ho : e.origin = .ansi) {d : Dimension}
    (hd : e.name ≠ d.name) (pen : Pen) : pen.opened e d = pen d := by
  obtain ⟨d', params, heff, hname⟩ := hs.named ho
  have hne : d ≠ d' := by
    rintro rfl
    exact hd hname
  rw [opened_eq heff]
  show (if d = d' then _ else pen d) = _
  rw [if_neg hne]

theorem turns_opens {e : Entry} (hs : e.Sound) : e.opens.Turns fun pen => pen.opened e := by
  obtain ⟨eff, heff⟩ := hs.pairs
  obtain ⟨params, hp, hopens⟩ := heff.isCode
  have hreads := heff.reads
  have hf : (fun pen : Pen => pen.opened e) = fun pen => [eff].foldl Pen.act pen :=
    funext fun pen => opened_eq heff pen
  rw [hf, hopens]
  rw [hopens] at hreads
  exact Text.Turns.code hp hreads

theorem turns_closes {e : Entry} (hs : e.Sound) : e.closes.Turns fun pen => pen.closed e := by
  obtain ⟨eff, heff⟩ := hs.pairs
  obtain ⟨ch, -, hcloses⟩ := heff.onChannel
  obtain ⟨params, hp, hcode⟩ := closeCode_isCode ch
  have hreads := ofCode_closeCode ch
  have hf : (fun pen : Pen => pen.closed e)
      = fun pen => [Effect.switchOff ch].foldl Pen.act pen := by
    -- a pen is closed by comparing codes, the effect compares channels
    funext pen d
    show (if d.channel.closeCode = e.closes then none else pen d)
      = if d.channel = ch then none else pen d
    rw [hcloses]
    by_cases h : d.channel = ch
    · rw [if_pos h, if_pos (h ▸ rfl)]
    · rw [if_neg h, if_neg fun hc => h (closeCode_inj hc)]
  rw [hf, hcloses, hcode]
  rw [hcode] at hreads
  exact Text.Turns.code hp hreads

/-! ## §3. Lists of entries. -/

/-- The pen after the opening codes of entries, from a blank one. -/
def Pen.ofEntries (entries : List Entry) : Pen := entries.foldl Pen.opened Pen.blank

variable {entries : List Entry}

theorem turns_openings (hs : ∀ e ∈ entries, e.Sound) :
    (openings entries).Turns fun pen => entries.foldl Pen.opened pen :=
  Text.Turns.flatMap fun e he => turns_opens (hs e he)

theorem turns_closings (hs : ∀ e ∈ entries, e.Sound) :
    (closings entries).Turns fun pen => entries.foldl Pen.closed pen :=
  Text.Turns.flatMap fun e he => turns_closes (hs e he)

/-- **Entries that do not touch a dimension may be left out.** -/
theorem foldl_opened_filter (hs : ∀ e ∈ entries, e.Sound) {d : Dimension} {keep : Entry → Bool}
    (hskip : ∀ e ∈ entries, keep e = false → ∀ pen : Pen, pen.opened e d = pen d) {p q : Pen}
    (hpq : p d = q d) :
    entries.foldl Pen.opened p d = (entries.filter keep).foldl Pen.opened q d := by
  -- the two pens need to agree on this one dimension only
  induction entries generalizing p q with
  | nil => exact hpq
  | cons e entries ih =>
    have hs' := fun x hx => hs x (List.mem_cons_of_mem _ hx)
    have hskip' := fun x hx => hskip x (List.mem_cons_of_mem _ hx)
    cases hk : keep e with
    | false =>
      rw [List.filter_cons_of_neg (by simp [hk]), List.foldl_cons]
      apply ih hs' hskip'
      rw [hskip e List.mem_cons_self hk, hpq]
    | true =>
      rw [List.filter_cons_of_pos hk, List.foldl_cons, List.foldl_cons]
      exact ih hs' hskip' (opened_congr (hs e List.mem_cons_self) hpq)

/-- Entries of other channels leave a dimension as it was. -/
theorem foldl_opened_of_ne (hs : ∀ e ∈ entries, e.Sound) {d : Dimension}
    (hd : ∀ e ∈ entries, e.closes ≠ d.channel.closeCode) (pen : Pen) :
    entries.foldl Pen.opened pen d = pen d := by
  have h : entries.foldl Pen.opened pen d
      = (entries.filter fun _ => false).foldl Pen.opened pen d :=
    foldl_opened_filter hs (fun e he _ => opened_of_ne (hs e he) (hd e he)) rfl
  rw [h, List.filter_false]
  rfl

/-- Closing entries switches off what their channels carry, and nothing else. -/
theorem foldl_closed (pen : Pen) (d : Dimension) :
    entries.foldl Pen.closed pen d
      = if d.channel.closeCode ∈ entries.map Entry.closes then none else pen d := by
  induction entries generalizing pen with
  | nil => rfl
  | cons e entries ih =>
    rw [List.foldl_cons, ih, List.map_cons]
    show (if _ then none else if d.channel.closeCode = e.closes then none else pen d) = _
    by_cases h1 : d.channel.closeCode ∈ entries.map Entry.closes
    · rw [if_pos h1, if_pos (List.mem_cons_of_mem _ h1)]
    · by_cases h2 : d.channel.closeCode = e.closes
      · rw [if_neg h1, if_pos h2, if_pos (h2 ▸ List.mem_cons_self)]
      · rw [if_neg h1, if_neg h2, if_neg fun h => (List.mem_cons.mp h).elim h2 h1]

/-- **Closing all entries leaves nothing on.** -/
theorem foldl_closed_ofEntries (hs : ∀ e ∈ entries, e.Sound) :
    entries.foldl Pen.closed (Pen.ofEntries entries) = Pen.blank := by
  funext d
  rw [foldl_closed]
  by_cases h : d.channel.closeCode ∈ entries.map Entry.closes
  · rw [if_pos h]
    rfl
  · rw [if_neg h]
    exact foldl_opened_of_ne hs (fun e he heq => h (heq ▸ List.mem_map_of_mem he)) Pen.blank

end TermMarkup
