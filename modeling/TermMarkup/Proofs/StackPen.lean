/-
  TermMarkup.Proofs.StackPen
  ──────────────────────────
  THE STACK DESCRIBES THE TERMINAL.  Whatever style tokens act on a stack, the
  codes that are written turn the pen that the old entries describe into the pen
  that the new entries describe.

  Closing is the step with an argument: the closes switch whole channels off,
  and what is restored are exactly the entries of these channels that stay, so
  on every dimension the pen is that of the entries that are left.

    • `applyEffect_ofEntries` — one effect of an SGR code,
    • `closeTag_turns` — a closing tag,
    • `apply_turns` — one token,
    • `feed_turns` — a run of tokens,
    • `stack_describes_terminal` — a run from the empty stack.
-/
import TermMarkup.Proofs.EntryPen
import TermMarkup.Proofs.Tokens
import Mathlib.Tactic.Set

namespace TermMarkup

/-- Every entry of the stack is sound. -/
def Stack.Sound (s : Stack) : Prop := ∀ e ∈ s.entries, e.Sound

theorem empty_sound : Stack.empty.Sound := by
  intro e he
  exact nomatch he

/-! ## §1. SGR codes. -/

theorem ofEntries_filter {entries : List Entry} (hs : ∀ e ∈ entries, e.Sound) {d : Dimension}
    {keep : Entry → Bool}
    (hskip : ∀ e ∈ entries, keep e = false → ∀ pen : Pen, pen.opened e d = pen d) :
    Pen.ofEntries (entries.filter keep) d = Pen.ofEntries entries d :=
  (foldl_opened_filter hs hskip rfl).symm

theorem applyEffect_sound {s : Stack} (hs : s.Sound) {eff : Effect} (heff : eff.Canonical) :
    (s.applyEffect eff).Sound := by
  cases eff with
  | reset => exact fun e he => nomatch he
  | switchOff ch => exact fun e he => hs e (List.mem_of_mem_filter he)
  | switchOn d params =>
    intro e he
    rcases List.mem_append.mp he with he | he
    · exact hs e (List.mem_of_mem_filter he)
    · obtain rfl := List.mem_singleton.mp he
      exact ⟨⟨_, heff.pairs⟩, fun _ => ⟨d, params, heff.pairs, rfl⟩⟩

/-- **One effect turns the pen of the old entries into that of the new ones.** -/
theorem applyEffect_ofEntries {s : Stack} (hs : s.Sound) {eff : Effect} (heff : eff.Canonical) :
    (Pen.ofEntries s.entries).act eff = Pen.ofEntries (s.applyEffect eff).entries := by
  funext d
  cases eff with
  | reset => rfl
  | switchOff ch =>
    show (if d.channel = ch then none else Pen.ofEntries s.entries d)
      = Pen.ofEntries (s.entries.filter fun e => e.closes ≠ ch.closeCode) d
    by_cases h : d.channel = ch
    · -- what stays is of other channels, so it leaves the dimension blank
      rw [if_pos h]
      refine (foldl_opened_of_ne (fun e he => hs e (List.mem_of_mem_filter he)) ?_ Pen.blank).symm
      intro e he
      rw [h]
      simpa using (List.mem_filter.mp he).2
    · -- what goes did not touch the dimension
      rw [if_neg h]
      refine (ofEntries_filter hs ?_).symm
      intro e he hk
      have hcloses : e.closes = ch.closeCode := by simpa using hk
      exact opened_of_ne (hs e he) fun heq => h (closeCode_inj (heq.symm.trans hcloses))
  | switchOn d' params =>
    show (if d = d' then _ else _) = Pen.ofEntries (_ ++ [_]) d
    unfold Pen.ofEntries
    rw [List.foldl_append, List.foldl_cons, List.foldl_nil, opened_eq heff.pairs]
    show _ = if d = d' then _ else _
    by_cases h : d = d'
    · rw [if_pos h, if_pos h]
    · -- the entry that is replaced is named for the new one's dimension
      rw [if_neg h, if_neg h]
      refine (ofEntries_filter hs ?_).symm
      intro e he hk
      have hold : e.origin = .ansi ∧ e.name = d'.name := by simpa using hk
      exact opened_of_name_ne (hs e he) hold.1 fun hname =>
        h (name_inj (hname.symm.trans hold.2))

theorem foldl_applyEffect {es : List Effect} (hes : ∀ eff ∈ es, eff.Canonical) {s : Stack}
    (hs : s.Sound) :
    (es.foldl Stack.applyEffect s).Sound
      ∧ es.foldl Pen.act (Pen.ofEntries s.entries)
          = Pen.ofEntries (es.foldl Stack.applyEffect s).entries := by
  -- on the effects, from left to right: soundness carries the next step
  induction es generalizing s with
  | nil => exact ⟨hs, rfl⟩
  | cons eff es ih =>
    have heff := hes eff List.mem_cons_self
    have hrest := fun x hx => hes x (List.mem_cons_of_mem _ hx)
    rw [List.foldl_cons, List.foldl_cons, applyEffect_ofEntries hs heff]
    exact ih hrest (applyEffect_sound hs heff)

/-- **What the token of a code does**: it writes the code and lets its effects act. -/
theorem codeToken_eq_ok {s s' : Stack} {code codes : Text}
    (h : (do return (code, ← s.applyCode code) : Except Fault (Text × Stack)) = .ok (codes, s')) :
    codes = code ∧ ∃ es, Effect.ofCode code = .ok es ∧ s' = es.foldl Stack.applyEffect s := by
  obtain ⟨after, happly, h⟩ := bind_eq_ok.mp h
  obtain ⟨es, hes, happly⟩ := bind_eq_ok.mp happly
  obtain rfl := Except.ok.inj happly
  obtain ⟨rfl, rfl⟩ := Prod.mk.inj (Except.ok.inj h)
  exact ⟨rfl, es, hes, rfl⟩

/-! ## §2. Opening tags. -/

/-- The entries that a resolved word adds. -/
theorem openWord_entries (s : Stack) (word : Text) (pairs : List StylePair) :
    ∃ added : List Entry, (s.openWord word pairs).entries = s.entries ++ added
      ∧ openings added = pairs.flatMap StylePair.opens
      ∧ ((∀ pair ∈ pairs, ∃ eff : Effect, eff.Pairs pair.opens pair.closes) →
          ∀ e ∈ added, e.Sound) := by
  refine ⟨_, rfl, ?_, ?_⟩
  · unfold openings
    rw [List.flatMap_map]
  · intro hpairs e he
    obtain ⟨pair, hpair, rfl⟩ := List.mem_map.mp he
    exact ⟨hpairs pair hpair, fun ho => nomatch ho⟩

theorem foldl_openWord {resolved : List (Text × List StylePair)}
    (hr : ∀ w ∈ resolved, ∀ pair ∈ w.2, ∃ eff : Effect, eff.Pairs pair.opens pair.closes)
    (s : Stack) :
    ∃ added : List Entry,
      (resolved.foldl (fun s (word, pairs) => s.openWord word pairs) s).entries
          = s.entries ++ added
        ∧ openings added = resolved.flatMap (fun (_, pairs) => pairs.flatMap StylePair.opens)
        ∧ ∀ e ∈ added, e.Sound := by
  induction resolved generalizing s with
  | nil => exact ⟨[], by simp, rfl, by simp⟩
  | cons w resolved ih =>
    obtain ⟨first, hfirst, hcodes, hsound⟩ := openWord_entries s w.1 w.2
    obtain ⟨rest, hrest, hcodes', hsound'⟩ :=
      ih (fun x hx => hr x (List.mem_cons_of_mem _ hx)) (s.openWord w.1 w.2)
    refine ⟨first ++ rest, ?_, ?_, ?_⟩
    · rw [List.foldl_cons, hrest, hfirst, List.append_assoc]
    · rw [List.flatMap_cons, ← hcodes']
      show openings (first ++ rest) = w.2.flatMap StylePair.opens ++ openings rest
      rw [← hcodes]
      exact List.flatMap_append
    · intro e he
      rcases List.mem_append.mp he with he | he
      · exact hsound (hr w List.mem_cons_self) e he
      · exact hsound' e he

theorem openTag_turns {theme : Theme} {s s' : Stack} (hs : s.Sound) {tag codes : Text}
    {words : List Text} (h : s.openTag theme tag words = .ok (codes, s')) :
    s'.Sound ∧ ∃ f, codes.Turns f ∧ f (Pen.ofEntries s.entries) = Pen.ofEntries s'.entries := by
  obtain ⟨resolved, hresolved, h⟩ := bind_eq_ok.mp h
  obtain ⟨rfl, rfl⟩ := Prod.mk.inj (Except.ok.inj h)
  have hr : ∀ w ∈ resolved, ∀ pair ∈ w.2,
      ∃ eff : Effect, eff.Pairs pair.opens pair.closes := by
    intro w hw
    obtain ⟨word, -, hword⟩ := exists_of_mapM_eq_ok hresolved w hw
    obtain ⟨pairs, hpairs, hword⟩ := bind_eq_ok.mp hword
    obtain rfl := Except.ok.inj hword
    exact resolve_pairs hpairs
  obtain ⟨added, hadded, hcodes, hsound⟩ := foldl_openWord hr s
  refine ⟨?_, fun pen => added.foldl Pen.opened pen, ?_, ?_⟩
  · intro e he
    rw [hadded] at he
    rcases List.mem_append.mp he with he | he
    · exact hs e he
    · exact hsound e he
  · rw [← hcodes]
    exact turns_openings hsound
  · rw [hadded]
    exact List.foldl_append.symm

/-! ## §3. Closing tags. -/

/-- Closing names keeps some entries in their order; what it reports as removed are the others. -/
theorem closeAll_filter (names : List Text) (s : Stack) :
    ∃ keep : Entry → Bool, (s.closeAll names).2.entries = s.entries.filter keep
      ∧ ∀ e ∈ s.entries, e ∈ (s.closeAll names).1 ↔ keep e = false := by
  induction names generalizing s with
  | nil => exact ⟨fun _ => true, by simp [Stack.closeAll], by simp [Stack.closeAll]⟩
  | cons name names ih =>
    obtain ⟨keep, hafter, hremoved⟩ := ih (s.close name).2
    show ∃ keep' : Entry → Bool,
      ((s.close name).2.closeAll names).2.entries = s.entries.filter keep'
        ∧ ∀ e ∈ s.entries, e ∈ (s.close name).1 ++ ((s.close name).2.closeAll names).1
            ↔ keep' e = false
    unfold Stack.close at hafter hremoved ⊢
    cases hg : s.groupToClose? name with
    | none =>
      rw [hg] at hafter hremoved
      exact ⟨keep, hafter, hremoved⟩
    | some group =>
      rw [hg] at hafter hremoved
      dsimp only at hafter hremoved ⊢
      -- what the first name leaves is filtered once more by the others
      refine ⟨fun e => !decide (e.name = name ∧ e.group = group) && keep e, ?_, ?_⟩
      · rw [hafter, List.filter_filter]
        exact List.filter_congr fun e _ => Bool.and_comm _ _
      · intro e he
        rw [List.mem_append, List.mem_filter]
        by_cases hgoes : e.name = name ∧ e.group = group
        · simp [he, hgoes]
        · have hstays : e ∈ s.entries.filter
              fun e => !decide (e.name = name ∧ e.group = group) :=
            List.mem_filter.mpr ⟨he, by simp [hgoes]⟩
          rw [hremoved e hstays]
          simp [hgoes]

/-- **A closing tag writes what turns the pen of the old entries into that of the new ones.** -/
theorem closeTag_turns {s : Stack} (hs : s.Sound) (words : List Text) :
    (s.closeTag words).2.Sound ∧ ∃ f, (s.closeTag words).1.Turns f
      ∧ f (Pen.ofEntries s.entries) = Pen.ofEntries (s.closeTag words).2.entries := by
  obtain ⟨keep, hafter, hremoved⟩ := closeAll_filter words s
  set removed := (s.closeAll words).1 with hremoved_def
  set after := (s.closeAll words).2 with hafter_def
  set closed := s.entries.filter fun e => removed.contains e with hclosed_def
  set restored := after.entries.filter fun e => (closed.map Entry.closes).contains e.closes
    with hrestored_def
  have hs_after : ∀ e ∈ after.entries, e.Sound := by
    intro e he
    rw [hafter] at he
    exact hs e (List.mem_of_mem_filter he)
  have hs_closed : ∀ e ∈ closed, e.Sound := fun e he => hs e (List.mem_of_mem_filter he)
  have hs_restored : ∀ e ∈ restored, e.Sound := fun e he => hs_after e (List.mem_of_mem_filter he)
  have hcode : s.closeTag words = (closings closed ++ openings restored, after) := rfl
  rw [hcode]
  refine ⟨hs_after, _, (turns_closings hs_closed).append (turns_openings hs_restored), ?_⟩
  funext d
  show restored.foldl Pen.opened (closed.foldl Pen.closed (Pen.ofEntries s.entries)) d
    = Pen.ofEntries after.entries d
  by_cases h : d.channel.closeCode ∈ closed.map Entry.closes
  · -- the channel is switched off, and all entries of it that stay are restored
    refine (foldl_opened_filter hs_after ?_ ?_).symm
    · intro e he hk
      refine opened_of_ne (hs_after e he) fun heq => ?_
      rw [heq] at hk
      simp [h] at hk
    · rw [foldl_closed, if_pos h]
      rfl
  · -- nothing that goes and nothing that is restored is of this channel
    have hrestored_ne : ∀ e ∈ restored, e.closes ≠ d.channel.closeCode := by
      intro e he heq
      have hc := (List.mem_filter.mp he).2
      rw [heq] at hc
      exact h (by simpa using hc)
    rw [foldl_opened_of_ne hs_restored hrestored_ne, foldl_closed, if_neg h, hafter]
    refine (ofEntries_filter hs ?_).symm
    intro e he hk
    refine opened_of_ne (hs e he) fun heq => h ?_
    have hin : e ∈ closed :=
      List.mem_filter.mpr ⟨he, by simpa using (hremoved e he).mpr hk⟩
    exact heq ▸ List.mem_map_of_mem hin

/-! ## §4. Tokens. -/

/-- **One style token writes what turns the pen of the old entries into that of the new ones.** -/
theorem apply_turns {theme : Theme} {s s' : Stack} (hs : s.Sound) {tok : Token}
    (htok : tok.CodeFormed) {codes : Text} (h : s.apply theme tok = .ok (codes, s')) :
    s'.Sound ∧ ∃ f, codes.Turns f ∧ f (Pen.ofEntries s.entries) = Pen.ofEntries s'.entries := by
  have hcode : ∀ code : Text, (∃ p, p.all isParamChar = true ∧ code = Sgr.code p) →
      (do return (code, ← s.applyCode code) : Except Fault (Text × Stack)) = .ok (codes, s') →
      s'.Sound ∧ ∃ f, codes.Turns f
        ∧ f (Pen.ofEntries s.entries) = Pen.ofEntries s'.entries := by
    rintro _ ⟨p, hp, rfl⟩ h
    obtain ⟨rfl, es, hes, rfl⟩ := codeToken_eq_ok h
    obtain ⟨hsound, hpen⟩ := foldl_applyEffect (Effect.ofCode_canonical hp hes) hs
    exact ⟨hsound, _, Text.Turns.code hp hes, hpen⟩
  cases tok with
  | literal t => exact nomatch h
  | tagOpen source words => exact openTag_turns hs h
  | tagClose source words =>
    have h := Except.ok.inj h
    have hclose := closeTag_turns hs words
    rw [h] at hclose
    exact hclose
  | codeOpen code closes => exact hcode code htok h
  | codeClose code => exact hcode code htok h

/-- A style token that cannot be applied ends the run. -/
theorem feed_error {theme : Theme} {tok : Token} (hstyle : tok.IsStyle) {s : Stack} {fault : Fault}
    (h : s.apply theme tok = .error fault) (toks : List Token) :
    s.feed theme (tok :: toks) = (.error fault, s) := by
  cases tok with
  | literal t => exact hstyle.elim
  | _ => simp only [Stack.feed, h]

/-- A style token that is applied writes its codes in front of what the others write. -/
theorem feed_ok {theme : Theme} {tok : Token} (hstyle : tok.IsStyle) {s next : Stack} {codes : Text}
    (h : s.apply theme tok = .ok (codes, next)) (toks : List Token) :
    s.feed theme (tok :: toks)
      = ((next.feed theme toks).1.map (codes :: ·), (next.feed theme toks).2) := by
  cases tok with
  | literal t => exact hstyle.elim
  | _ => simp only [Stack.feed, h]

/-- A token that is applied hands its stack on. -/
theorem feed_next {theme : Theme} {tok : Token} {s next : Stack} {codes : Text}
    (h : s.apply theme tok = .ok (codes, next)) (toks : List Token) :
    (s.feed theme (tok :: toks)).2 = (next.feed theme toks).2 := by
  cases tok with
  | literal t => exact nomatch h
  | _ => simp only [Stack.feed, h]

/-- A run that succeeds begins with a style token that is applied. -/
theorem feed_cons {theme : Theme} {tok : Token} (hstyle : tok.IsStyle) {toks : List Token}
    {s s' : Stack} {written : List Text} (h : s.feed theme (tok :: toks) = (.ok written, s')) :
    ∃ codes next rest, s.apply theme tok = .ok (codes, next)
      ∧ next.feed theme toks = (.ok rest, s') ∧ written = codes :: rest := by
  cases happly : s.apply theme tok with
  | error fault =>
    rw [feed_error hstyle happly] at h
    cases (Prod.mk.inj h).1
  | ok result =>
    obtain ⟨codes, next⟩ := result
    rw [feed_ok hstyle happly] at h
    obtain ⟨hw, hs'⟩ := Prod.mk.inj h
    cases hrest : (next.feed theme toks).1 with
    | error fault =>
      rw [hrest] at hw
      cases hw
    | ok rest =>
      rw [hrest] at hw
      exact ⟨codes, next, rest, rfl, Prod.ext hrest hs', (Except.ok.inj hw).symm⟩

/-- Tokens after others that are applied go on from the stack that these leave. -/
theorem feed_append {theme : Theme} {a : List Token} {s s' : Stack} {written : List Text}
    (h : s.feed theme a = (.ok written, s')) (b : List Token) :
    s.feed theme (a ++ b) = ((s'.feed theme b).1.map (written ++ ·), (s'.feed theme b).2) := by
  induction a generalizing s written with
  | nil =>
    obtain ⟨hw, rfl⟩ := Prod.mk.inj h
    obtain rfl := Except.ok.inj hw
    show s.feed theme b = ((s.feed theme b).1.map id, (s.feed theme b).2)
    rw [Except.map_id]
    rfl
  | cons tok a ih =>
    rcases literal_or_style tok with ⟨t, rfl⟩ | hstyle
    · have hrest : s.feed theme a = ((s.feed theme a).1, s') := Prod.ext rfl (Prod.mk.inj h).2
      have hw : (s.feed theme a).1.map (t :: ·) = .ok written := (Prod.mk.inj h).1
      cases hfirst : (s.feed theme a).1 with
      | error fault =>
        rw [hfirst] at hw
        exact nomatch hw
      | ok rest =>
        rw [hfirst] at hw hrest
        obtain rfl := Except.ok.inj hw
        show ((s.feed theme (a ++ b)).1.map (t :: ·), (s.feed theme (a ++ b)).2) = _
        rw [ih hrest]
        cases (s'.feed theme b).1 <;> rfl
    · obtain ⟨codes, next, rest, happly, hrest, rfl⟩ := feed_cons hstyle h
      rw [List.cons_append, feed_ok hstyle happly, ih hrest]
      cases (s'.feed theme b).1 <;> rfl

/-- **A run of style tokens turns the pen of the first entries into that of the last ones.** -/
theorem feed_turns {theme : Theme} {toks : List Token}
    (htoks : ∀ tok ∈ toks, tok.IsStyle ∧ tok.CodeFormed) {s s' : Stack} (hs : s.Sound)
    {written : List Text} (h : s.feed theme toks = (.ok written, s')) :
    s'.Sound ∧ ∃ f, Text.Turns written.flatten f
      ∧ f (Pen.ofEntries s.entries) = Pen.ofEntries s'.entries := by
  induction toks generalizing s written with
  | nil =>
    obtain ⟨hw, rfl⟩ := Prod.mk.inj h
    obtain rfl := Except.ok.inj hw
    exact ⟨hs, id, Text.Turns.nil, rfl⟩
  | cons tok toks ih =>
    obtain ⟨hstyle, hformed⟩ := htoks tok List.mem_cons_self
    obtain ⟨codes, next, rest, happly, hfeed, rfl⟩ := feed_cons hstyle h
    obtain ⟨hnext, f, hf, hpen⟩ := apply_turns hs hformed happly
    obtain ⟨hlast, g, hg, hpen'⟩ :=
      ih (fun x hx => htoks x (List.mem_cons_of_mem _ hx)) hnext hfeed
    refine ⟨hlast, g ∘ f, hf.append hg, ?_⟩
    show g (f _) = _
    rw [hpen, hpen']

/-- **The stack always describes the terminal.**  The codes that style tokens of texts write, from
the empty stack on, leave the pen that the openings of the stack leave, and the closings of the
stack turn that pen blank. -/
theorem stack_describes_terminal {theme : Theme} {toks : List Token}
    (htoks : ∀ tok ∈ toks, tok.IsStyle ∧ tok.FromText) {written : List Text} {s : Stack}
    (h : Stack.empty.feed theme toks = (.ok written, s)) :
    ∃ pen, Pen.blank.after written.flatten = .ok pen
      ∧ Pen.blank.after (openings s.entries) = .ok pen
      ∧ pen.after (closings s.entries) = .ok Pen.blank := by
  obtain ⟨hs, f, hturns, hf⟩ :=
    feed_turns (fun tok htok => ⟨(htoks tok htok).1, (htoks tok htok).2.codeFormed⟩) empty_sound h
  refine ⟨Pen.ofEntries s.entries, ?_, (turns_openings hs).after _, ?_⟩
  · rw [hturns.after, ← hf]
    rfl
  · rw [(turns_closings hs).after, foldl_closed_ofEntries hs]

/-- Overlapping styles: a raw code is dim and sets a color, then the tag's bold closes under it. -/
theorem stack_describes_terminal_overlap :
    ∃ toks : List Token, Text.tokens "{bold red}\x1b[2;34m{/bold}".toList = .ok toks
      ∧ ∃ written s, Stack.empty.feed Theme.standard toks = (.ok written, s)
      ∧ openings s.entries = "\x1b[31m\x1b[2m\x1b[34m".toList
      ∧ ∃ pen, Pen.blank.after written.flatten = .ok pen
        ∧ Pen.blank.after (openings s.entries) = .ok pen
        ∧ pen.after (closings s.entries) = .ok Pen.blank := by
  let toks : List Token :=
    [.tagOpen "{bold red}".toList ["bold".toList, "red".toList],
     .codeOpen "\x1b[2;34m".toList "\x1b[22m\x1b[39m".toList,
     .tagClose "{/bold}".toList ["bold".toList]]
  have hcut : Text.tokens "{bold red}\x1b[2;34m{/bold}".toList = .ok toks := by decide +kernel
  have htoks : ∀ tok ∈ toks, tok.IsStyle := by decide
  have hfeed : Stack.empty.feed Theme.standard toks
      = (.ok ["\x1b[1m\x1b[31m".toList, "\x1b[2;34m".toList, "\x1b[22m\x1b[2m".toList],
          ⟨[⟨"red".toList, "\x1b[31m".toList, "\x1b[39m".toList, .markup, 2⟩,
            ⟨"dim".toList, "\x1b[2m".toList, "\x1b[22m".toList, .ansi, 0⟩,
            ⟨"fg".toList, "\x1b[34m".toList, "\x1b[39m".toList, .ansi, 0⟩], 2⟩) := by
    decide +kernel
  exact ⟨toks, hcut, _, _, hfeed, by decide, stack_describes_terminal
    (fun tok htok => ⟨htoks tok htok, _, toks, hcut, htok⟩) hfeed⟩

end TermMarkup
