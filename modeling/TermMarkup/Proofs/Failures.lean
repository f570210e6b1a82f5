/-
  TermMarkup.Proofs.Failures
  ──────────────────────────
  WHAT CAN FAIL IN WRAPPING is what can fail without it.  A text fails when it
  is cut into tokens, or at the first style token that cannot be applied to the
  stack.  A builder applies each style token once, in the order of the text,
  wherever lines end, and none of its other steps fails.

    • `feed_eq_ofTokens` — tokens write on a stack what their runs write,
    • `runs_eq_error` — the two ways in which a text fails,
    • `reshape_fails_as_render` — building lines fails just as compiling does.
-/
import TermMarkup.Proofs.BuiltLines
import TermMarkup.Proofs.Tokens

namespace TermMarkup

/-! ## §1. Tokens on a stack. -/

/-- **Tokens that act on a stack write what their runs write**, and fail where they fail. -/
theorem feed_eq_ofTokens (theme : Theme) (s : Stack) (ts : List Token) :
    (s.feed theme ts).1 = (Run.ofTokens theme s ts).map (List.map Run.written) := by
  -- on the tokens, for any stack: each style token hands its own stack on
  induction ts generalizing s with
  | nil => rfl
  | cons tok ts ih =>
    cases tok with
    | literal u =>
      show (s.feed theme ts).1.map (u :: ·) = _
      rw [ih]
      show _ = (do return Run.text u :: (← Run.ofTokens theme s ts)).map (List.map Run.written)
      cases Run.ofTokens theme s ts <;> rfl
    | _ =>
      simp only [Stack.feed, Run.ofTokens]
      cases s.apply theme _ with
      | error fault => rfl
      | ok result =>
        obtain ⟨codes, next⟩ := result
        show (next.feed theme ts).1.map (codes :: ·) = _
        rw [ih]
        show _ = (do return Run.style codes next.entries :: (← Run.ofTokens theme next ts)).map
          (List.map Run.written)
        cases Run.ofTokens theme next ts <;> rfl

/-- **A text fails when it is cut into tokens, or when these act on the empty stack.** -/
theorem runs_eq_error {theme : Theme} {t : Text} {fault : Fault} :
    t.runs theme = .error fault
      ↔ t.tokens = .error fault
        ∨ ∃ ts, t.tokens = .ok ts ∧ (Stack.empty.feed theme ts).1 = .error fault := by
  have hfeed : ∀ ts, (Stack.empty.feed theme ts).1 = .error fault
      ↔ Run.ofTokens theme Stack.empty ts = .error fault := by
    intro ts
    rw [feed_eq_ofTokens]
    exact map_eq_error
  simp only [hfeed]
  exact bind_eq_error

/-! ## §2. Texts. -/

/-- **Building lines fails just as compiling does.**  Whatever the width and the threshold, a builder
stops at a text exactly if the text cannot be compiled, and with the same fault: that of cutting the
text into tokens, or that of the first style token that the stack refuses.  It finds a text in each
dense word and a cluster in that text.  The lines it builds are those of `Text.wrap`. -/
theorem reshape_fails_as_render (theme : Theme) (t : Text) (width : Int)
    (threshold? : Option Int) :
    (∀ e, Text.reshape theme t width threshold? = .error e
        ↔ ∃ fault, e = .fault fault ∧ Text.render theme t = .error fault)
      ∧ ((∃ lines, Text.reshape theme t width threshold? = .ok lines)
        ↔ ∃ out, Text.render theme t = .ok out)
      ∧ (∀ fault, Text.render theme t = .error fault
        ↔ t.tokens = .error fault
          ∨ ∃ ts, t.tokens = .ok ts ∧ (Stack.empty.feed theme ts).1 = .error fault)
      ∧ ∀ lines, Text.reshape theme t width threshold? = .ok lines
        ↔ Text.wrap theme t width threshold? = .ok lines := by
  -- the layout and the written runs are the last steps of the two, and cannot fail
  have hwrap : ∀ fault, Text.wrap theme t width threshold? = .error fault
      ↔ t.runs theme = .error fault := fun fault => map_eq_error
  have hrender : ∀ fault, Text.render theme t = .error fault ↔ t.runs theme = .error fault :=
    fun fault => map_eq_error
  have hfails : ∀ e, Text.reshape theme t width threshold? = .error e
      ↔ ∃ fault, e = .fault fault ∧ Text.render theme t = .error fault := by
    intro e
    rw [reshape_eq_wrap, mapError_eq_error]
    simp only [hwrap, hrender]
  refine ⟨hfails, ?_, fun fault => (hrender fault).trans runs_eq_error, fun lines => ?_⟩
  · rw [exists_eq_ok_iff, exists_eq_ok_iff]
    constructor
    · intro hbuilt fault hfault
      exact hbuilt _ ((hfails _).mpr ⟨fault, rfl, hfault⟩)
    · intro hcompiled e he
      obtain ⟨fault, -, hfault⟩ := (hfails e).mp he
      exact hcompiled fault hfault
  · rw [reshape_eq_wrap]
    exact mapError_eq_ok

end TermMarkup
