/-
  TermMarkup.Proofs.FaultKinds
  ────────────────────────────
  WHAT A TEXT FAILS WITH.  Cutting a text into tokens reads the parameters of
  its codes, and compiling the tokens reads the words of its opening tags, with
  the styles of the roles among them.  Everything that is wrong with a tag is a
  fault of the markup, apart from two faults of large numbers: a parameter of
  more digits than are read, and a component of a color triple beyond every
  finite number.

    • `ofCode_failsOnly` — the faults of a code,
    • `runs_failsOnly` — the faults of a text,
    • `fails_with_markup_only` — without large numbers, compiling and wrapping a
      text fail with faults of the markup only, and so a command that does
      either ends with exit code 0 or 2,
    • `fails_with_large_numbers` — with them, they fail with other faults.
-/
import TermMarkup.CommandLine.Program
import TermMarkup.Proofs.CodeText
import TermMarkup.Proofs.ColorFaults
import TermMarkup.Proofs.CombinedScan
import TermMarkup.Proofs.Decimals
import TermMarkup.Proofs.Failures
import TermMarkup.Proofs.Literals
import Mathlib.Data.List.TakeWhile

namespace TermMarkup

/-! ## §1. Codes. -/

theorem Text.IsDigits.isDecimal {p : Text} (hp : p.IsDigits) : p.IsDecimal :=
  fun c hc => isDecimal_of_isDigit (hp c hc)

/-- One of the parameters has more digits than are read, and the fault says how many. -/
def Effect.TooLong (params : List Text) (fault : Fault) : Prop :=
  ∃ p ∈ params, Integer.maxDigits < p.length ∧ fault = .integerTooLong p.length

theorem tooLong_of_subset {params more : List Text} (h : params ⊆ more) (fault : Fault)
    (hfault : Effect.TooLong params fault) : Effect.TooLong more fault := by
  obtain ⟨p, hp, hlong⟩ := hfault
  exact ⟨p, h hp, hlong⟩

theorem paramValue_failsOnly {p : Text} (hp : p.IsDigits) :
    FailsOnly (Effect.TooLong [p]) (Effect.paramValue p) := by
  unfold Effect.paramValue
  split
  · exact .ok 0
  · next hne =>
    rw [read_decimals hp.isDecimal (by simpa using hne)]
    split
    · next hlong => exact .error ⟨p, List.mem_singleton_self p, hlong, rfl⟩
    · exact .ok _

/-- **Parameters have no other fault than their length.** -/
theorem ofParams_failsOnly (params : List Text) (hp : ∀ p ∈ params, p.IsDigits) :
    FailsOnly (Effect.TooLong params) (Effect.ofParams params) := by
  -- along the reading: what is read next is the first parameter, then what it leaves
  induction params using Effect.ofParams.induct with
  | case1 =>
    rw [Effect.ofParams]
    exact .ok []
  | case2 param rest ih1 ih2 =>
    have hrest : ∀ p ∈ rest, p.IsDigits := fun p h => hp p (List.mem_cons_of_mem _ h)
    have hfirst := paramValue_failsOnly (hp param List.mem_cons_self)
    have hmode : FailsOnly (Effect.TooLong rest) (Effect.paramValue (rest.headD [])) := by
      cases rest with
      | nil => exact .ok 0
      | cons mode rest =>
        exact (paramValue_failsOnly (hrest mode List.mem_cons_self)).imp
          (tooLong_of_subset (by simp))
    rw [Effect.ofParams]
    refine (hfirst.imp (tooLong_of_subset (by simp))).bind fun n _ => ?_
    cases hcolor : Effect.extendedColor? n with
    | none =>
      exact ((ih1 hrest).imp (tooLong_of_subset (List.subset_cons_self _ _))).bind_pure _
    | some d =>
      refine (hmode.imp (tooLong_of_subset (List.subset_cons_self _ _))).bind fun mode _ => ?_
      have hdrop : rest.drop (Effect.extended d mode rest).2 ⊆ param :: rest :=
        fun p h => List.mem_cons_of_mem _ (List.mem_of_mem_drop h)
      exact ((ih2 _ fun p h => hrest p (List.mem_of_mem_drop h)).imp
        (tooLong_of_subset hdrop)).bind_pure _

/-- **A code has no other fault than the length of a parameter.** -/
theorem ofCode_failsOnly {p : Text} (hp : p.all isParamChar = true) :
    FailsOnly (Effect.TooLong (Text.fields ';' p)) (Effect.ofCode (Sgr.code p)) := by
  rw [ofCode_code]
  exact ofParams_failsOnly _ (fields_isDigits hp)

/-! ## §2. Texts. -/

/-- The parameters of the codes of a text. -/
def Text.codeParams (t : Text) : List Text :=
  t.codes.flatMap fun code => fields ';' ((Effect.paramsOf? code).getD [])

/-- The style words that the opening tags of a text come to, roles replaced by their styles. -/
def Theme.openedWords (theme : Theme) (t : Text) : List Text :=
  ((t.tags.filter fun tag => !tag.closes).flatMap fun tag => Text.styleWords tag.body).flatMap
    theme.wordsFor

/-- A fault of the markup of a text, or of a large number in it: a parameter of a code that is too
long, or a component of a color triple without a finite value. -/
def Text.IsFault (theme : Theme) (t : Text) (fault : Fault) : Prop :=
  Effect.TooLong t.codeParams fault ∨ Style.IsFault (theme.openedWords t) fault

variable {theme : Theme} {t : Text} {ts : List Token}

theorem fields_subset_codeParams {p : Text} (h : Piece.mark (.code p) ∈ pieces Mark.any? t) :
    Text.fields ';' p ⊆ t.codeParams := by
  intro q hq
  refine List.mem_flatMap.mpr ⟨Sgr.code p, mem_codes h, ?_⟩
  rw [paramsOf?_code]
  exact hq

theorem wordsFor_subset_openedWords {body : Text}
    (h : Piece.mark (.tag false body) ∈ pieces Mark.any? t) {word : Text}
    (hword : word ∈ Text.styleWords body) : theme.wordsFor word ⊆ theme.openedWords t := by
  obtain ⟨tag, htag, hopens, rfl⟩ := exists_tag_of_mark h
  intro w hw
  refine List.mem_flatMap.mpr ⟨word, List.mem_flatMap.mpr ⟨tag, ?_, hword⟩, hw⟩
  exact List.mem_filter.mpr ⟨htag, by simp [hopens]⟩

/-- A code of the text fails on a parameter only. -/
theorem code_failsOnly {p : Text} (h : Piece.mark (.code p) ∈ pieces Mark.any? t) :
    FailsOnly (Text.IsFault theme t) (Effect.ofCode (Sgr.code p)) :=
  (ofCode_failsOnly (params_of_mem_pieces h)).imp fun fault hfault =>
    .inl (tooLong_of_subset (fields_subset_codeParams h) fault hfault)

/-- So does the token of a mark. -/
theorem ofMark_failsOnly {m : Mark} (h : Piece.mark m ∈ pieces Mark.any? t) :
    FailsOnly (Text.IsFault theme t) (Token.ofMark m) := by
  cases m with
  | code p =>
    show FailsOnly _ (Token.ofCode (Sgr.code p))
    unfold Token.ofCode
    refine (code_failsOnly h).bind fun es _ => ?_
    dsimp only
    split <;> exact .ok _
  | tag closes body => cases closes <;> exact .ok _

theorem ofPieces_failsOnly {P : Fault → Prop} {ps : List Piece}
    (h : ∀ m, Piece.mark m ∈ ps → FailsOnly P (Token.ofMark m)) :
    FailsOnly P (Token.ofPieces ps) := by
  induction ps with
  | nil => exact .ok []
  | cons piece ps ih =>
    have hrest := ih fun m hm => h m (List.mem_cons_of_mem _ hm)
    cases piece with
    | plain c => exact hrest.bind_pure _
    | mark m =>
      exact (h m List.mem_cons_self).bind fun tok _ => hrest.bind_pure _

/-- **Cutting a text into tokens fails on an unterminated tag or on a parameter.** -/
theorem tokens_failsOnly : FailsOnly (Text.IsFault theme t) t.tokens := by
  unfold Text.tokens Text.checkTags
  split
  · exact .error (.inr (.inl rfl))
  · exact ofPieces_failsOnly fun m hm => ofMark_failsOnly hm

/-- A style token of the text fails on a parameter or on its words. -/
theorem apply_failsOnly {m : Mark} (hm : Piece.mark m ∈ pieces Mark.any? t) {tok : Token}
    (htok : Token.ofMark m = .ok tok) (s : Stack) :
    FailsOnly (Text.IsFault theme t) (s.apply theme tok) := by
  cases m with
  | code p =>
    -- whatever the code is to the stack, it is read first
    have happly : FailsOnly (Text.IsFault theme t)
        (do return (Sgr.code p, ← s.applyCode (Sgr.code p)) : Except Fault (Text × Stack)) :=
      ((code_failsOnly hm).bind_pure _).bind_pure _
    obtain ⟨es, -, htok⟩ := bind_eq_ok.mp (show Token.ofCode (Sgr.code p) = .ok tok from htok)
    dsimp only at htok
    split at htok <;> obtain rfl := Except.ok.inj htok <;> exact happly
  | tag closes body =>
    cases closes with
    | true =>
      obtain rfl := Except.ok.inj htok
      exact .ok _
    | false =>
      obtain rfl := Except.ok.inj htok
      show FailsOnly _ (Stack.openTag theme s _ _)
      refine FailsOnly.bind_pure (.mapM fun word hword => ?_) _
      refine ((resolve_failsOnly theme _ word).imp fun fault hfault => ?_).bind_pure _
      refine .inr (hfault.imp_right fun ⟨hkind, w, hw, hhuge⟩ => ⟨hkind, w, ?_, hhuge⟩)
      exact wordsFor_subset_openedWords hm hword hw

theorem ofTokens_failsOnly {P : Fault → Prop}
    (h : ∀ tok ∈ ts, tok.IsStyle → ∀ s : Stack, FailsOnly P (s.apply theme tok)) (s : Stack) :
    FailsOnly P (Run.ofTokens theme s ts) := by
  induction ts generalizing s with
  | nil => exact .ok []
  | cons tok ts ih =>
    have hrest := ih fun x hx => h x (List.mem_cons_of_mem _ hx)
    rcases literal_or_style tok with ⟨u, rfl⟩ | hstyle
    · exact (hrest s).bind_pure _
    · intro fault hfault
      cases happly : s.apply theme tok with
      | error fault' =>
        rw [ofTokens_error hstyle happly] at hfault
        obtain rfl := Except.error.inj hfault
        exact h tok List.mem_cons_self hstyle s _ happly
      | ok result =>
        rw [ofTokens_ok happly] at hfault
        exact hrest _ fault (map_eq_error.mp hfault)

/-- **The faults of a text.** -/
theorem runs_failsOnly (theme : Theme) (t : Text) :
    FailsOnly (Text.IsFault theme t) (t.runs theme) := by
  refine tokens_failsOnly.bind fun ts hts => ?_
  obtain ⟨-, -, hpieces⟩ := bind_eq_ok.mp hts
  refine ofTokens_failsOnly (fun tok htok hstyle s => ?_) Stack.empty
  obtain ⟨m, hm, hof⟩ := exists_mark_of_style hpieces tok htok hstyle
  exact apply_failsOnly hm hof s

/-! ## §3. Large numbers. -/

/-- No number in the text is too large: no parameter of a code is too long, and no fraction of a
color triple huge. -/
structure Text.Moderate (theme : Theme) (t : Text) : Prop where
  params : ∀ p ∈ t.codeParams, p.length ≤ Integer.maxDigits
  fractions : ∀ word ∈ theme.openedWords t, ∀ f ∈ Style.fractions word, ¬ColorSpec.Huge f

theorem Text.Moderate.isMarkup (h : t.Moderate theme) (fault : Fault)
    (hfault : Text.IsFault theme t fault) : fault.kind = .markup := by
  rcases hfault with ⟨p, hp, hlong, -⟩ | hmarkup | ⟨-, word, hword, f, hf, hhuge⟩
  · exact absurd hlong (Nat.not_lt.mpr (h.params p hp))
  · exact hmarkup
  · exact absurd hhuge (h.fractions word hword f hf)

/-- A command whose faults are those of the markup ends well or with a usage error. -/
theorem work_of_failsOnly {command : CommandLine.Command} {width : Int}
    (h : FailsOnly (fun fault => fault.kind = .markup) (command.output theme width t)) :
    (command.work theme width t).crash = none
      ∧ ((command.work theme width t).exitCode = 0
        ∨ (command.work theme width t).exitCode = 2) := by
  unfold CommandLine.Command.work
  cases houtput : command.output theme width t with
  | ok out => exact ⟨rfl, .inl rfl⟩
  | error fault =>
    dsimp only
    rw [if_pos (h fault houtput)]
    exact ⟨rfl, .inr rfl⟩

/-- Over any other fault it crashes. -/
theorem exitCode_of_error {command : CommandLine.Command} {width : Int} {fault : Fault}
    (h : command.output theme width t = .error fault) (hkind : fault.kind ≠ .markup) :
    (command.work theme width t).exitCode = 1 := by
  unfold CommandLine.Command.work
  rw [h]
  dsimp only
  rw [if_neg hkind]
  rfl

/-- **Only faults of the markup escape**, if no number in the text is too large: compiling it and
wrapping it to any width have no others, and so the commands that do either end with exit code 0
or 2. -/
theorem fails_with_markup_only {theme : Theme} {t : Text} (h : t.Moderate theme) :
    FailsOnly (fun fault => fault.kind = .markup) (t.render theme)
      ∧ (∀ (width : Int) (threshold? : Option Int),
          FailsOnly (fun fault => fault.kind = .markup) (t.wrap theme width threshold?))
      ∧ ∀ command ∈ [CommandLine.Command.render, .reshape], ∀ width : Int,
          (command.work theme width t).crash = none
            ∧ ((command.work theme width t).exitCode = 0
              ∨ (command.work theme width t).exitCode = 2) := by
  have hruns : FailsOnly (fun fault => fault.kind = .markup) (t.runs theme) :=
    (runs_failsOnly theme t).imp h.isMarkup
  refine ⟨hruns.bind_pure _, fun width threshold? => hruns.bind_pure _, ?_⟩
  intro command hcommand width
  rcases List.mem_cons.mp hcommand with rfl | hcommand
  · exact work_of_failsOnly ((hruns.bind_pure _).bind_pure _)
  · obtain rfl := List.mem_singleton.mp hcommand
    exact work_of_failsOnly ((hruns.bind_pure _).bind_pure _)

/-- A palette code, a role, and a triple of which one fraction is above one, but not huge. -/
theorem fails_with_markup_only_triple :
    Text.Moderate Theme.standard "\x1b[38;5;7m{emphasis}{(1.5,0,0)}".toList
      ∧ Text.render Theme.standard "\x1b[38;5;7m{emphasis}{(1.5,0,0)}".toList
          = .error (.unusableColor "(1.5,0,0)".toList "{(1.5,0,0)}".toList
              (.componentOutOfRange "(1.5,0,0)".toList))
      ∧ (CommandLine.Command.work .render Theme.standard 80
          "\x1b[38;5;7m{emphasis}{(1.5,0,0)}".toList).crash = none := by
  have h : Text.Moderate Theme.standard "\x1b[38;5;7m{emphasis}{(1.5,0,0)}".toList :=
    ⟨by decide +kernel, by decide +kernel⟩
  have hfails := fails_with_markup_only h
  exact ⟨h, by decide +kernel, (hfails.2.2 .render List.mem_cons_self 80).1⟩

/-- A code of one parameter that is too long cannot be read. -/
theorem ofCode_tooLong {p : Text} (hp : p.IsDigits) (hlong : Integer.maxDigits < p.length) :
    Effect.ofCode (Sgr.code p) = .error (.integerTooLong p.length) := by
  have hne : p ≠ [] := by
    rintro rfl
    exact Nat.not_lt_zero _ hlong
  have hfields : Text.fields ';' p = [p] := Text.fieldsBy_of_none hp.not_separator
  have hempty : p.isEmpty = false := by simpa using hne
  rw [ofCode_code, hfields, Effect.ofParams]
  unfold Effect.paramValue
  rw [hempty, if_neg Bool.false_ne_true, read_decimals hp.isDecimal hne, if_pos hlong]
  rfl

/-- **A text that is such a code fails with a fault of values.** -/
theorem render_tooLong {p : Text} (hp : p.IsDigits) (hlong : Integer.maxDigits < p.length)
    (theme : Theme) : Text.render theme (Sgr.code p) = .error (.integerTooLong p.length) := by
  have hbrace : '{' ∉ Sgr.code p := notMem_code hp.isParam (by decide)
  have hcheck : Text.checkTags (Sgr.code p) = .ok () := by
    unfold Text.checkTags
    rw [unterminatedFrom?_of_no_brace hbrace]
  have hscan : pieces Mark.any? (Sgr.code p) = [.mark (.code p)] := by
    unfold pieces
    rw [scan_any?_of_no_brace hbrace false, ← List.append_nil (Sgr.code p),
      scan_code?_code false hp.isParam, scan]
  have hmark : Token.ofMark (.code p) = .error (.integerTooLong p.length) := by
    show Token.ofCode (Sgr.code p) = _
    unfold Token.ofCode
    rw [ofCode_tooLong hp hlong]
    rfl
  unfold Text.render Text.runs Text.tokens
  rw [hcheck, hscan]
  simp only [Token.ofPieces, hmark]
  rfl

/-- **With large numbers other faults escape**, over which a command crashes: a component beyond
every finite number, and a parameter of more digits than are read. -/
theorem fails_with_large_numbers :
    let huge : Text := "\x7b(".toList ++ List.replicate 309 '9' ++ ".,0,0)\x7d".toList
    let long : Text := Sgr.code (List.replicate 4301 '1')
    (Text.render Theme.standard huge = .error .infiniteComponent
        ∧ Fault.kind .infiniteComponent = .overflow
        ∧ (CommandLine.Command.work .render Theme.standard 80 huge).exitCode = 1)
      ∧ Text.render Theme.standard long = .error (.integerTooLong 4301)
        ∧ Fault.kind (.integerTooLong 4301) = .value
        ∧ (CommandLine.Command.work .render Theme.standard 80 long).exitCode = 1 := by
  intro huge long
  have hhuge : Text.render Theme.standard huge = .error .infiniteComponent := by decide +kernel
  have hdigits : Text.IsDigits (List.replicate 4301 '1') := by
    intro c hc
    rw [List.eq_of_mem_replicate hc]
    decide
  have hlong : Text.render Theme.standard long = .error (.integerTooLong 4301) := by
    have h := render_tooLong hdigits (by rw [List.length_replicate]; decide) Theme.standard
    rw [List.length_replicate] at h
    exact h
  have hcrash : ∀ {t : Text} {fault : Fault}, Text.render Theme.standard t = .error fault →
      fault.kind ≠ .markup →
      (CommandLine.Command.work .render Theme.standard 80 t).exitCode = 1 :=
    fun h hkind => exitCode_of_error (bind_eq_error.mpr (.inl h)) hkind
  exact ⟨⟨hhuge, rfl, hcrash hhuge (by decide)⟩, hlong, rfl, hcrash hlong (by decide)⟩

end TermMarkup
