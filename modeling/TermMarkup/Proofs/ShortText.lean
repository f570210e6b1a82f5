/-
  TermMarkup.Proofs.ShortText
  ───────────────────────────
  TEXT THAT FITS IN ONE LINE IS ONLY COMPILED.  A text without newlines whose
  literal characters fit in the width has nothing to wrap, so laying it out
  writes, character for character, what compiling it without a width writes:
  the blanks in their places, the codes between them, and at the end what closes
  the styles that are still open.

    • `laid_oneLine` — the items of one line, as they are laid out,
    • `layout_of_short` — runs that fit in one line,
    • `wrap_eq_render` — texts that fit in one line.
-/
import TermMarkup.Proofs.Fitting
import TermMarkup.Proofs.Pieces

namespace TermMarkup

/-! ## §1. Runs of one line. -/

variable {rs : List Run}

theorem oneLine_of_literal (h : '\n' ∉ rs.flatMap Run.literal) : OneLine rs :=
  fun r hr hmem => h (List.mem_flatMap.mpr ⟨r, hr, hmem⟩)

/-- Items of one line are laid out as they are written, and the open styles end behind them. -/
theorem laid_oneLine (h : OneLine rs) (active : List Entry) :
    Item.laid active (rs.flatMap Run.items)
      = rs.flatMap Run.written ++ Text.ending (rs.foldl Run.after active) := by
  have hlaid := @laid_runs active rs h []
  rw [List.append_nil] at hlaid
  exact hlaid

/-- **Runs that fit in one line are written as they are.** -/
theorem layout_of_short (hline : '\n' ∉ rs.flatMap Run.literal) {m : Measure}
    (hfits : (Text.width (rs.flatMap Run.literal) : Int) ≤ m.width) :
    layout m rs = rs.flatMap Run.written ++ Text.ending (rs.foldl Run.after []) := by
  have hone := Text.lines_of_notMem hline
  have hitems : Item.Fits m.width 0 (rs.flatMap Run.items) := by
    refine fits_of_lines ?_
    rw [hone]
    intro line hmem
    obtain rfl := List.mem_singleton.mp hmem
    exact hfits
  rw [layout_of_fits hitems, laid_oneLine (oneLine_of_literal hline)]

/-! ## §2. Texts. -/

/-- **Text that fits is only compiled.**  If `t` holds no newline and its literal text is no wider
than `width`, wrapped `t` is compiled `t`, whatever the threshold is; a fault of the one is the
fault of the other. -/
theorem wrap_eq_render (theme : Theme) {t : Text} {ts : List Token} (hts : t.tokens = .ok ts)
    (hline : '\n' ∉ t) {width : Int}
    (hfits : (Text.width (ts.flatMap Token.plain) : Int) ≤ width) (threshold? : Option Int) :
    Text.wrap theme t width threshold? = Text.render theme t := by
  have hruns : t.runs theme = Run.ofTokens theme Stack.empty ts := by
    unfold Text.runs
    rw [hts]
    rfl
  unfold Text.wrap Text.render
  rw [hruns]
  cases hcompiled : Run.ofTokens theme Stack.empty ts with
  | error fault => rfl
  | ok rs =>
    -- the literal text of the runs is that of the tokens, which stands in the text
    have hliteral := ofTokens_literal hcompiled
    have hshort : '\n' ∉ rs.flatMap Run.literal := by
      rw [hliteral]
      exact fun hmem => hline ((tokens_plain_sublist hts).subset hmem)
    rw [← hliteral] at hfits
    exact congrArg Except.ok (layout_of_short hshort hfits)

/-- A dense word, blanks at both ends, a style that begins between blanks and one left open, in a
line that they just fill. -/
theorem wrap_eq_render_full :
    Text.render Theme.standard " ab{bold}世界 {red} {/bold} c ".toList
        = .ok " ab\x1b[1m世界 \x1b[31m \x1b[22m c \x1b[39m\x1b[0m".toList
      ∧ Text.wrap Theme.standard " ab{bold}世界 {red} {/bold} c ".toList 12 (some 3)
        = Text.render Theme.standard " ab{bold}世界 {red} {/bold} c ".toList := by
  let ts : List Token :=
    [.literal " ab".toList, .tagOpen "{bold}".toList ["bold".toList], .literal "世界 ".toList,
     .tagOpen "{red}".toList ["red".toList], .literal " ".toList,
     .tagClose "{/bold}".toList ["bold".toList], .literal " c ".toList]
  have hts : Text.tokens " ab{bold}世界 {red} {/bold} c ".toList = .ok ts := by decide +kernel
  exact ⟨by decide +kernel, wrap_eq_render Theme.standard hts (by decide) (by decide +kernel) _⟩

end TermMarkup
