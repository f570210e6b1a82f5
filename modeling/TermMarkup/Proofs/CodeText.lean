/-
  TermMarkup.Proofs.CodeText
  ──────────────────────────
  TEXT WITH CODES AND WITHOUT TAGS.  Where no brace opens there is no tag, so the
  marks of a text are its codes, and if a terminal can read these, they act on a
  stack without fault.  The runs of such a text are written as it stands.

  All styles that are open in it were opened by codes.  Of such styles none can
  cover another up, so if the pen is blank, no style is open.

    • `scan_any?_of_no_brace` — without braces all marks are codes,
    • `ofPieces_readable`, `ofTokens_readable` — readable codes compile,
    • `runs_codeRuns` — what the runs of such a text are,
    • `entries_eq_nil` — where the pen is blank, no style by codes is open.
-/
import TermMarkup.Proofs.Compiled
import TermMarkup.Proofs.Pieces

namespace TermMarkup

/-! ## §1. Text without braces. -/

/-- A text without an opening brace has no unterminated tag. -/
theorem unterminatedFrom?_of_no_brace {t : Text} (ht : '{' ∉ t) (b : Bool) :
    Text.unterminatedFrom? b t = none := by
  induction t generalizing b with
  | nil => rfl
  | cons c t ih =>
    have hc : c ≠ '{' := fun heq => ht (heq ▸ List.mem_cons_self)
    have hrest := ih fun hmem => ht (List.mem_cons_of_mem _ hmem)
    unfold Text.unterminatedFrom?
    rw [read?_of_ne b hc]
    exact hrest _

theorem any?_of_ne (b : Bool) {c : Char} (hc : c ≠ '{') (cs : Text) :
    Mark.any? b (c :: cs) = Mark.code? b (c :: cs) := by
  unfold Mark.any?
  rw [tag?_of_ne b hc]
  cases Mark.code? b (c :: cs) <;> rfl

/-- **Without an opening brace all marks are codes.** -/
theorem scan_any?_of_no_brace {t : Text} (ht : '{' ∉ t) (b : Bool) :
    scan Mark.any? b t = scan Mark.code? b t := by
  induction b, t using scan.induct Mark.code? with
  | case1 b => rw [scan, scan]
  | case2 b c cs m hm ih =>
    have hc : c ≠ '{' := fun heq => ht (heq ▸ List.mem_cons_self)
    have hrest := ih fun hmem => ht (List.mem_cons_of_mem _ (List.mem_of_mem_drop hmem))
    rw [scan, scan, any?_of_ne b hc, hm]
    exact congrArg _ hrest
  | case3 b c cs hm ih =>
    have hc : c ≠ '{' := fun heq => ht (heq ▸ List.mem_cons_self)
    have hrest := ih fun hmem => ht (List.mem_cons_of_mem _ hmem)
    rw [scan, scan, any?_of_ne b hc, hm]
    exact congrArg _ hrest

/-! ## §2. Readable codes. -/

/-- The mark is a code that can be read. -/
def Mark.Readable (m : Mark) : Prop :=
  ∃ params es, m = .code params ∧ Effect.ofCode (Sgr.code params) = .ok es

/-- The token is literal text, or a code that can be read. -/
def Token.Readable : Token → Prop
  | .literal _ => True
  | .codeOpen code _ | .codeClose code => ∃ es, Effect.ofCode code = .ok es
  | _ => False

variable {ps : List Piece} {ts : List Token} {rs : List Run} {theme : Theme} {s : Stack}

/-- A terminal that takes signals from pieces can read their marks. -/
theorem readable_of_signals {ss : List Signal} (h : signalsOf ps = .ok ss) {m : Mark}
    (hm : Piece.mark m ∈ ps) : ∃ es, Effect.ofCode m.source = .ok es := by
  induction ps generalizing ss with
  | nil => exact nomatch hm
  | cons p ps ih =>
    obtain ⟨first, hfirst, h⟩ := bind_eq_ok.mp h
    obtain ⟨rest, hrest, -⟩ := bind_eq_ok.mp h
    rcases List.mem_cons.mp hm with rfl | hm
    · obtain ⟨es, hes, -⟩ := bind_eq_ok.mp hfirst
      exact ⟨es, hes⟩
    · exact ih hrest hm

/-- If a text has signals, a scan for codes finds readable ones only. -/
theorem marks_readable {t : Text} {ss : List Signal} (h : t.signals = .ok ss) {m : Mark}
    (hm : Piece.mark m ∈ pieces Mark.code? t) : m.Readable := by
  obtain ⟨es, hes⟩ := readable_of_signals h hm
  obtain ⟨b, t', hfound⟩ := mem_scan hm
  obtain ⟨params, rest, -, rfl, -⟩ := code?_eq_some hfound
  exact ⟨params, es, rfl, hes⟩

/-- **Readable marks make readable tokens.** -/
theorem ofPieces_readable (h : ∀ m, Piece.mark m ∈ ps → m.Readable) :
    ∃ ts, Token.ofPieces ps = .ok ts ∧ ∀ tok ∈ ts, tok.Readable := by
  induction ps with
  | nil => exact ⟨[], rfl, fun tok htok => nomatch htok⟩
  | cons p ps ih =>
    obtain ⟨ts, hts, hreadable⟩ := ih fun m hm => h m (List.mem_cons_of_mem _ hm)
    cases p with
    | plain c =>
      refine ⟨Token.consPlain c ts, bind_eq_ok.mpr ⟨ts, hts, rfl⟩, ?_⟩
      exact forall_consPlain (fun _ => trivial) hreadable
    | mark m =>
      obtain ⟨params, es, rfl, hes⟩ := h m List.mem_cons_self
      -- the token opens or closes, by the effects that were read
      have htok : ∃ tok, Token.ofMark (.code params) = .ok tok ∧ tok.Readable := by
        show ∃ tok, Token.ofCode (Sgr.code params) = .ok tok ∧ tok.Readable
        unfold Token.ofCode
        rw [hes, ok_bind]
        dsimp only
        split
        · exact ⟨_, rfl, es, hes⟩
        · exact ⟨_, rfl, es, hes⟩
      obtain ⟨tok, htok, hcode⟩ := htok
      refine ⟨tok :: ts, bind_eq_ok.mpr ⟨tok, htok, bind_eq_ok.mpr ⟨ts, hts, rfl⟩⟩, ?_⟩
      intro tok' htok'
      rcases List.mem_cons.mp htok' with rfl | htok'
      · exact hcode
      · exact hreadable tok' htok'

/-- A readable code acts on any stack, and is written as it stands. -/
theorem apply_readable (theme : Theme) (s : Stack) {tok : Token} (h : tok.Readable)
    (hstyle : tok.IsStyle) :
    ∃ es : List Effect, s.apply theme tok = .ok (tok.source, es.foldl Stack.applyEffect s) := by
  have hcode : ∀ code : Text, (∃ es, Effect.ofCode code = .ok es) →
      ∃ es : List Effect, (do return (code, ← s.applyCode code) : Except Fault (Text × Stack))
        = .ok (code, es.foldl Stack.applyEffect s) := by
    rintro code ⟨es, hes⟩
    refine ⟨es, ?_⟩
    unfold Stack.applyCode
    rw [hes]
    rfl
  cases tok with
  | literal t => exact hstyle.elim
  | tagOpen source words => exact h.elim
  | tagClose source words => exact h.elim
  | codeOpen code closes => exact hcode code h
  | codeClose code => exact hcode code h

/-! ## §3. Styles that codes opened. -/

/-- All of the styles were opened by codes. -/
def ByCodes (entries : List Entry) : Prop := ∀ e ∈ entries, e.origin = .ansi

theorem applyEffect_byCodes (h : ByCodes s.entries) (eff : Effect) :
    ByCodes (s.applyEffect eff).entries := by
  cases eff with
  | reset => exact fun e he => nomatch he
  | switchOff ch => exact fun e he => h e (List.mem_of_mem_filter he)
  | switchOn d params =>
    intro e he
    rcases List.mem_append.mp he with he | he
    · exact h e (List.mem_of_mem_filter he)
    · obtain rfl := List.mem_singleton.mp he
      rfl

theorem foldl_applyEffect_byCodes (es : List Effect) (h : ByCodes s.entries) :
    ByCodes (es.foldl Stack.applyEffect s).entries := by
  induction es generalizing s with
  | nil => exact h
  | cons eff es ih => exact ih (applyEffect_byCodes h eff)

/-- **Where the pen is blank, no style by codes is open**: the last of them would be on. -/
theorem entries_eq_nil {entries : List Entry} (hs : ∀ e ∈ entries, e.Sound)
    (hcodes : ByCodes entries) (hpen : Pen.ofEntries entries = Pen.blank) : entries = [] := by
  rcases List.eq_nil_or_concat' entries with rfl | ⟨init, last, rfl⟩
  · rfl
  · have hlast : last ∈ init ++ [last] := List.mem_append_right _ List.mem_cons_self
    obtain ⟨d, params, heff, -⟩ := (hs last hlast).named (hcodes last hlast)
    have hon : Pen.ofEntries (init ++ [last]) d = some (Sgr.code params) := by
      unfold Pen.ofEntries
      rw [List.foldl_append, List.foldl_cons, List.foldl_nil, opened_eq heff]
      exact if_pos rfl
    rw [hpen] at hon
    exact nomatch hon

/-! ## §4. Compiling. -/

/-- In all of the runs that open or close styles, the open ones are by codes. -/
def RunsByCodes (rs : List Run) : Prop := ∀ codes active, Run.style codes active ∈ rs → ByCodes active

/-- **Readable tokens compile**, to runs that are written as the tokens stand. -/
theorem ofTokens_readable (theme : Theme) (h : ∀ tok ∈ ts, tok.Readable) {s : Stack}
    (hs : ByCodes s.entries) :
    ∃ rs, Run.ofTokens theme s ts = .ok rs ∧ rs.flatMap Run.written = ts.flatMap Token.source
      ∧ RunsByCodes rs := by
  induction ts generalizing s with
  | nil => exact ⟨[], rfl, rfl, fun codes active hmem => nomatch hmem⟩
  | cons tok ts ih =>
    have htok := h tok List.mem_cons_self
    have hrest := fun tok' htok' => h tok' (List.mem_cons_of_mem _ htok')
    rcases literal_or_style tok with ⟨t, rfl⟩ | hstyle
    · obtain ⟨rs, hrs, hwritten, hcodes⟩ := ih hrest hs
      refine ⟨.text t :: rs, bind_eq_ok.mpr ⟨rs, hrs, rfl⟩, ?_, ?_⟩
      · rw [List.flatMap_cons, List.flatMap_cons, hwritten]
        rfl
      · intro codes active hmem
        rcases List.mem_cons.mp hmem with heq | hmem
        · exact nomatch heq
        · exact hcodes codes active hmem
    · obtain ⟨es, happly⟩ := apply_readable theme s htok hstyle
      have hnext := foldl_applyEffect_byCodes es hs
      obtain ⟨rs, hrs, hwritten, hcodes⟩ := ih hrest hnext
      refine ⟨_, ofTokens_style happly hrs, ?_, ?_⟩
      · rw [List.flatMap_cons, List.flatMap_cons, hwritten]
        rfl
      · intro codes active hmem
        rcases List.mem_cons.mp hmem with heq | hmem
        · obtain ⟨-, rfl⟩ := Run.style.inj heq
          exact hnext
        · exact hcodes codes active hmem

/-- The runs of a text with codes and without tags. -/
structure CodeRuns (t : Text) (rs : List Run) : Prop where
  written : rs.flatMap Run.written = t
  literal : rs.flatMap Run.literal = dropMarks Mark.code? t
  coherent : Item.Coherent [] (rs.flatMap Run.items)
  byCodes : RunsByCodes rs

/-- **A text without braces compiles if a terminal can read its codes**, to runs that are written
as it stands. -/
theorem runs_codeRuns (theme : Theme) {t : Text} (hbrace : '{' ∉ t) {ss : List Signal}
    (h : t.signals = .ok ss) : ∃ rs, t.runs theme = .ok rs ∧ CodeRuns t rs := by
  obtain ⟨ts, hpieces, hreadable⟩ := ofPieces_readable fun m hm => marks_readable h hm
  have hscan : pieces Mark.any? t = pieces Mark.code? t := scan_any?_of_no_brace hbrace false
  have hcheck : Text.checkTags t = .ok () := by
    unfold Text.checkTags
    rw [unterminatedFrom?_of_no_brace hbrace]
  have hts : t.tokens = .ok ts := by
    unfold Text.tokens
    rw [hcheck, hscan]
    exact hpieces
  obtain ⟨rs, hrs, hwritten, hcodes⟩ :=
    ofTokens_readable theme hreadable (s := Stack.empty) fun e he => nomatch he
  refine ⟨rs, bind_eq_ok.mpr ⟨ts, hts, hrs⟩, ?_, ?_, ?_, hcodes⟩
  · rw [hwritten, tokens_source hts]
  · rw [ofTokens_literal hrs, tokens_plain hts]
    unfold dropMarks
    rw [hscan]
  · exact ofTokens_coherent hrs empty_sound (tokens_codeFormed hts)

end TermMarkup
