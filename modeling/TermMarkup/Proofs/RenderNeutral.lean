/-
  TermMarkup.Proofs.RenderNeutral
  ───────────────────────────────
  RENDERED TEXT LEAVES EVERYTHING OFF.  What is open at the end of the text is
  closed there, so the pen is blank behind it, as long as a terminal finds in
  the rendered text the codes that were written and no other.  Literal text by
  itself holds no code; but it may end in one that lacks its `m`, and a tag that
  writes nothing lets the text behind it complete that code.

    • `Text.endsInCode` — a text that ends in an unfinished code,
    • `signals_unmarked` — literal text that completes no code is shown as it is,
    • `Run.Seamless` — no run that writes nothing stands behind an unfinished code,
    • `runs_settle_pen` — written runs leave everything off at the end,
    • `render_neutral` — and so does rendered text.
-/
import TermMarkup.Proofs.LineEnds
import TermMarkup.Proofs.Literals
import TermMarkup.Proofs.VisibleText

namespace TermMarkup

/-! ## §1. Unfinished codes. -/

namespace Text

/-- Whether the text is the beginning of a code, without its `m`. -/
def beginsCode : Text → Bool
  | ['\x1b'] => true
  | '\x1b' :: '[' :: params => params.all isParamChar
  | _ => false

/-- Whether the text ends in the beginning of a code. -/
def endsInCode : Text → Bool
  | [] => false
  | c :: t => beginsCode (c :: t) || endsInCode t

/-- The text is empty or starts with the escape character. -/
def StartsApart (t : Text) : Prop := ∀ c ∈ t.head?, c = Sgr.escape

theorem Coded.startsApart {t : Text} (h : Coded [] t) : StartsApart t := by
  generalize hu : ([] : Text) = u at h
  cases h with
  | nil => exact fun c hc => nomatch hc
  | char c _ => exact nomatch hu
  | code hp _ => exact fun c hc => (Option.some.inj hc).symm

theorem Coded.append_startsApart {t : Text} (h : Coded [] t) (hne : t ≠ []) (rest : Text) :
    StartsApart (t ++ rest) := by
  obtain ⟨c, t, rfl⟩ := List.exists_cons_of_ne_nil hne
  exact h.startsApart

end Text

/-- What stands in a code before its end, but is not empty, is the beginning of a code. -/
theorem beginsCode_of_append {p s rest : Text} (hp : p.all isParamChar = true) (hs : s ≠ [])
    (hrest : rest ≠ []) (h : s ++ rest = Sgr.code p) : s.beginsCode = true := by
  cases s with
  | nil => exact absurd rfl hs
  | cons c s =>
    obtain ⟨rfl, htail⟩ := List.cons.inj h
    cases s with
    | nil => rfl
    | cons d q =>
      obtain ⟨rfl, hend⟩ := List.cons.inj htail
      -- the last character is the `m`, so what stands before it is all of parameters
      show q.all isParamChar = true
      rcases List.append_eq_append_iff.mp hend with ⟨more, hparams, -⟩ | ⟨more, hq, hm⟩
      · rw [hparams, List.all_append, Bool.and_eq_true] at hp
        exact hp.1
      · rcases List.singleton_eq_append_iff.mp hm with ⟨hmore, -⟩ | ⟨-, hnil⟩
        · rwa [hq, hmore, List.append_nil]
        · exact absurd hnil hrest

/-- What stands in a code behind something has no escape character. -/
theorem escape_notMem_of_append {p s rest : Text} (hp : p.all isParamChar = true) (hs : s ≠ [])
    (h : s ++ rest = Sgr.code p) : Sgr.escape ∉ rest := by
  intro hmem
  cases s with
  | nil => exact absurd rfl hs
  | cons c s =>
    have htail : s ++ rest = '[' :: (p ++ ['m']) := (List.cons.inj h).2
    exact escape_notMem_codeTail hp (htail ▸ List.mem_append_right s hmem)

/-- **A code that text is part of is in the text, unless the text begins it.** -/
theorem code?_append {b : Bool} {s rest : Text} (hs : s ≠ []) (hcode : Mark.code? b s = none)
    (hrest : s.beginsCode = false ∨ rest.StartsApart) : Mark.code? b (s ++ rest) = none := by
  cases hm : Mark.code? b (s ++ rest) with
  | none => rfl
  | some m =>
    exfalso
    obtain ⟨p, after, hp, -, hsource⟩ := code?_eq_some hm
    rcases List.append_eq_append_iff.mp hsource with ⟨more, hparted, hmore⟩ | ⟨more, hwhole, -⟩
    · by_cases hnil : more = []
      · rw [hnil, List.append_nil] at hparted
        have hread := code?_code b hp []
        rw [List.append_nil, hparted, hcode] at hread
        exact nomatch hread
      · rcases hrest with hbegins | hapart
        · have hbegun := beginsCode_of_append hp hs hnil hparted.symm
          exact absurd (hbegins.symm.trans hbegun) (by decide)
        · obtain ⟨c, more, rfl⟩ := List.exists_cons_of_ne_nil hnil
          have hc : c = Sgr.escape := hapart c (by rw [hmore]; rfl)
          exact escape_notMem_of_append hp hs hparted.symm (hc ▸ List.mem_cons_self)
    · have hread := code?_code b hp more
      rw [← hwhole, hcode] at hread
      exact nomatch hread

/-- **Text without codes that ends in no unfinished one is scanned by itself.** -/
theorem scan_code?_append {b : Bool} {u rest : Text} (hu : scan Mark.code? b u = u.map .plain)
    (hrest : u.endsInCode = false ∨ rest.StartsApart) :
    scan Mark.code? b (u ++ rest) = u.map .plain ++ scan Mark.code? b rest := by
  induction u with
  | nil => rfl
  | cons c u ih =>
    cases hcode : Mark.code? b (c :: u) with
    | some m =>
      rw [scan, hcode] at hu
      cases (List.cons.inj hu).1
    | none =>
      rw [scan_plain hcode, scan_code?_flag _ b] at hu
      have hbegins : Text.beginsCode (c :: u) = false ∨ rest.StartsApart :=
        hrest.imp_left fun h => (Bool.or_eq_false_iff.mp h).1
      have hnone := code?_append (List.cons_ne_nil c u) hcode hbegins
      rw [List.cons_append] at hnone ⊢
      rw [scan_plain hnone, scan_code?_flag _ b,
        ih (List.cons.inj hu).2 (hrest.imp_left fun h => (Bool.or_eq_false_iff.mp h).2)]
      rfl

/-! ## §2. Signals. -/

theorem signalsOf_plain (u : Text) : signalsOf (u.map .plain) = .ok (u.map .glyph) := by
  induction u with
  | nil => rfl
  | cons c u ih =>
    show (do return [Signal.glyph c] ++ (← signalsOf (u.map .plain))) = _
    rw [ih]
    rfl

/-- **Literal text that completes no code is shown as it is.** -/
theorem signals_unmarked {u rest : Text} (hu : u.Unmarked false)
    (hrest : u.endsInCode = false ∨ rest.StartsApart) {ss : List Signal}
    (hss : rest.signals = .ok ss) : (u ++ rest).signals = .ok (u.map .glyph ++ ss) := by
  have hss : signalsOf (scan Mark.code? false rest) = .ok ss := hss
  unfold Text.signals pieces
  rw [scan_code?_append hu.noCode hrest, signalsOf_append, signalsOf_plain, hss]
  rfl

/-! ## §3. Written runs. -/

/-- No run that writes nothing stands directly behind an unfinished code. -/
def Run.Seamless (rs : List Run) : Prop :=
  rs.IsChain fun r next => next.written = [] → r.literal.endsInCode = false

/-- What runs write, and the end of what they leave open. -/
def Run.writtenFrom (active : List Entry) (rs : List Run) : Text :=
  rs.flatMap Run.written ++ Text.ending (rs.foldl Run.after active)

theorem writtenFrom_cons (active : List Entry) (r : Run) (rs : List Run) :
    Run.writtenFrom active (r :: rs) = r.written ++ Run.writtenFrom (r.after active) rs := by
  unfold Run.writtenFrom
  rw [List.flatMap_cons, List.append_assoc, List.foldl_cons]

variable {theme : Theme} {ts : List Token} {rs : List Run} {s : Stack}

/-- A literal ends in no unfinished code, or else what is written behind it starts apart. -/
theorem startsApart_behind_literal {b : Bool} {u : Text} (h : Run.ofTokens theme s ts = .ok rs)
    (hs : s.Sound) (hformed : ∀ tok ∈ ts, tok.CodeFormed)
    (hparted : Token.Parted b (.literal u :: ts)) (hseamless : Run.Seamless (.text u :: rs)) :
    u.endsInCode = false ∨ (Run.writtenFrom s.entries rs).StartsApart := by
  obtain ⟨-, hnext, -⟩ := hparted
  cases ts with
  | nil =>
    obtain rfl := Except.ok.inj h
    exact .inr (textEnding_coded hs).startsApart
  | cons tok ts =>
    have hstyle := hnext tok rfl
    rcases ofTokens_cons h with ⟨v, rest, rfl, -, -⟩ | ⟨codes, next, rest, -, happly, -, rfl⟩
    · exact hstyle.elim
    · by_cases hcodes : codes = []
      · exact .inl ((List.isChain_cons_cons.mp hseamless).1 hcodes)
      · obtain ⟨-, f, hf, -⟩ := apply_turns hs (hformed tok List.mem_cons_self) happly
        rw [writtenFrom_cons]
        exact .inr (hf.coded.append_startsApart hcodes _)

/-- **Written runs leave everything off** at the end of the text, from the pen of what is open
before them. -/
theorem runs_settle_pen (h : Run.ofTokens theme s ts = .ok rs) (hs : s.Sound)
    (hformed : ∀ tok ∈ ts, tok.CodeFormed) (hparted : Token.Parted false ts)
    (hseamless : Run.Seamless rs) :
    ∃ ss, (Run.writtenFrom s.entries rs).signals = .ok ss
      ∧ (Pen.ofEntries s.entries).follow ss = Pen.blank := by
  -- along the tokens: the pen is that of the open styles, and the ending closes those that are left
  induction ts generalizing s rs with
  | nil =>
    obtain rfl := Except.ok.inj h
    obtain ⟨f, hf, hpen⟩ := ending_turns hs
    obtain ⟨es, hes, hact⟩ := hf.effects
    exact ⟨_, hes.signals, by rw [Pen.follow_effects, hact, hpen]⟩
  | cons tok ts ih =>
    have hformed' := fun x hx => hformed x (List.mem_cons_of_mem _ hx)
    rcases ofTokens_cons h with
      ⟨u, rest, rfl, hrest, rfl⟩ | ⟨codes, next, rest, -, happly, hrest, rfl⟩
    · have hapart := startsApart_behind_literal hrest hs hformed' hparted hseamless
      obtain ⟨⟨-, hu⟩, -, hparted⟩ := hparted
      obtain ⟨ss, hss, hpen⟩ := ih hrest hs hformed' hparted hseamless.tail
      rw [writtenFrom_cons]
      refine ⟨u.map Signal.glyph ++ ss, signals_unmarked hu hapart hss, ?_⟩
      rw [Pen.follow_append, Pen.follow_glyphs]
      exact hpen
    · obtain ⟨hnext, f, hf, hturn⟩ := apply_turns hs (hformed tok List.mem_cons_self) happly
      have hparted : Token.Parted false ts := by
        rcases literal_or_style tok with ⟨u, rfl⟩ | hstyle
        · exact nomatch happly
        · exact (parted_style hstyle).mp hparted
      obtain ⟨ss, hss, hpen⟩ := ih hrest hnext hformed' hparted hseamless.tail
      obtain ⟨es, hes, hact⟩ := hf.effects
      rw [writtenFrom_cons]
      refine ⟨es.map .effect ++ ss, (hes _).trans (bind_eq_ok.mpr ⟨ss, hss, rfl⟩), ?_⟩
      rw [Pen.follow_append, Pen.follow_effects, hact, hturn]
      exact hpen

/-! ## §4. Texts. -/

/-- **Rendered text leaks no style**, if no run that writes nothing stands directly behind an
unfinished code: read with everything off at its start, it leaves everything off. -/
theorem render_neutral {theme : Theme} {t rendered : Text} {rs : List Run}
    (hruns : t.runs theme = .ok rs) (hseamless : Run.Seamless rs)
    (h : t.render theme = .ok rendered) : rendered.Neutral := by
  obtain ⟨ts, rs', hts, hruns', hcompiled, rfl⟩ := render_eq_ok h
  obtain rfl : rs = rs' := Except.ok.inj (hruns.symm.trans hruns')
  obtain ⟨-, -, hpieces⟩ := bind_eq_ok.mp hts
  obtain ⟨ss, hss, hpen⟩ :=
    runs_settle_pen hcompiled empty_sound (tokens_codeFormed hts) (scan_parted hpieces) hseamless
  exact Text.neutral_of_signals hss hpen

/-- Unfinished codes stand before a tag that writes a code, before a code, and at the end; a tag
that writes nothing stands behind finished text. -/
theorem render_neutral_unfinished :
    let rs : List Run :=
      [.text "\x1b[3".toList,
       .style "\x1b[31m".toList [⟨"red".toList, "\x1b[31m".toList, "\x1b[39m".toList, .markup, 1⟩],
       .text "1m".toList,
       .style [] [⟨"red".toList, "\x1b[31m".toList, "\x1b[39m".toList, .markup, 1⟩],
       .text "x\x1b[".toList,
       .style "\x1b[0m".toList [],
       .text "4m\x1b".toList]
    Text.runs Theme.standard "\x1b[3{red}1m{/bold}x\x1b[\x1b[0m4m\x1b".toList = .ok rs
      ∧ Run.Seamless rs
      ∧ Text.render Theme.standard "\x1b[3{red}1m{/bold}x\x1b[\x1b[0m4m\x1b".toList
          = .ok "\x1b[3\x1b[31m1mx\x1b[\x1b[0m4m\x1b".toList
      ∧ Text.Neutral "\x1b[3\x1b[31m1mx\x1b[\x1b[0m4m\x1b".toList := by
  intro rs
  have hruns : Text.runs Theme.standard "\x1b[3{red}1m{/bold}x\x1b[\x1b[0m4m\x1b".toList
      = .ok rs := by
    decide +kernel
  have hseamless : Run.Seamless rs := by
    unfold Run.Seamless
    decide +kernel
  have h : Text.render Theme.standard "\x1b[3{red}1m{/bold}x\x1b[\x1b[0m4m\x1b".toList
      = .ok "\x1b[3\x1b[31m1mx\x1b[\x1b[0m4m\x1b".toList := by
    decide +kernel
  exact ⟨hruns, hseamless, h, render_neutral hruns hseamless h⟩

/-- **A tag that writes nothing lets the text around it join to a code**, which nothing closes. -/
theorem render_leaks_joined_code :
    Text.render Theme.standard "\x1b[{/bold}31m".toList = .ok "\x1b[31m".toList
      ∧ ¬ Text.Neutral "\x1b[31m".toList := by
  refine ⟨by decide +kernel, fun h => ?_⟩
  have hpen : (Pen.blank.after "\x1b[31m".toList).map (fun pen => pen .foreground)
      = .ok (some "\x1b[31m".toList) := by
    decide +kernel
  rw [show Pen.blank.after _ = .ok Pen.blank from h] at hpen
  exact nomatch hpen

end TermMarkup
