/-
  TermMarkup.Proofs.TokenUnits
  ────────────────────────────
  UNITS BEFORE AND AFTER COMPILING.  Tokens can be cut into units and these be
  compiled one after the other, each from the stack that the one before leaves,
  or they can be compiled first and then be cut.  Both come to the same units, and
  fail at the same token: cutting keeps the tokens in their order, and compiling
  takes them in that order.

    • `compile` — compiling with the stack that is left; `compile_append` hands it
      on, `ofTokens_eq_compile` relates it to runs,
    • `compile_matches` — a token and its run have the same text,
    • `compileUnits_ofTokens` — the units of tokens, compiled, are those of the runs,
    • `ofTokens_inked` — no word holds an empty text.
-/
import TermMarkup.LineBuilder
import TermMarkup.Proofs.Outcome
import TermMarkup.Proofs.Units

namespace TermMarkup

/-! ## §1. Compiling with the stack. -/

/-- Compiles tokens from a stack on; gives their runs and the stack that is left. -/
def compile (theme : Theme) (s : Stack) : List Token → Except BuildFault (List Run × Stack)
  | [] => .ok ([], s)
  | .literal t :: rest => do
    let after ← compile theme s rest
    return (.text t :: after.1, after.2)
  | token :: rest =>
    match s.apply theme token with
    | .error fault => .error (.fault fault)
    | .ok (codes, next) => do
      let after ← compile theme next rest
      return (.style codes next.entries :: after.1, after.2)

theorem compile_nil (theme : Theme) (s : Stack) : compile theme s [] = .ok ([], s) := rfl

variable {theme : Theme} {s s' : Stack} {parts ts : List Token} {rs : List Run} {tok : Token}

/-- Compiling a style token and what follows it. -/
theorem compile_style (h : tok.isLiteral = false) (rest : List Token) :
    compile theme s (tok :: rest) = match s.apply theme tok with
      | .error fault => .error (.fault fault)
      | .ok (codes, next) => compile theme next rest >>= fun after =>
          .ok (.style codes next.entries :: after.1, after.2) := by
  cases tok with
  | literal t => exact nomatch h
  | _ => rfl

/-- **Compiling hands the stack on.** -/
theorem compile_append (theme : Theme) (s : Stack) (ts us : List Token) :
    compile theme s (ts ++ us) = compile theme s ts >>= fun first =>
      compile theme first.2 us >>= fun second => .ok (first.1 ++ second.1, second.2) := by
  -- on the first tokens, for any stack: each style token hands its own stack on
  induction ts generalizing s with
  | nil =>
    show compile theme s us = compile theme s us >>= fun second => .ok (second.1, second.2)
    cases compile theme s us <;> rfl
  | cons tok ts ih =>
    have hrest : ∀ (next : Stack) (r : Run),
        (compile theme next (ts ++ us) >>= fun after =>
            (.ok (r :: after.1, after.2) : Except BuildFault (List Run × Stack)))
          = (compile theme next ts >>= fun after => .ok (r :: after.1, after.2)) >>= fun first =>
            compile theme first.2 us >>= fun second => .ok (first.1 ++ second.1, second.2) := by
      intro next r
      rw [ih]
      cases hfirst : compile theme next ts with
      | error e => rfl
      | ok first =>
        simp only [ok_bind]
        cases compile theme first.2 us <;> rfl
    cases hliteral : tok.isLiteral with
    | true =>
      cases tok with
      | literal t => exact hrest s (.text t)
      | _ => exact nomatch hliteral
    | false =>
      rw [List.cons_append, compile_style hliteral, compile_style hliteral]
      cases s.apply theme tok with
      | error fault => rfl
      | ok result => exact hrest result.2 (.style result.1 result.2.entries)

/-- **The runs of tokens** are what compiling them gives, without the stack. -/
theorem ofTokens_eq_compile (theme : Theme) (s : Stack) (ts : List Token) :
    (Run.ofTokens theme s ts).mapError BuildFault.fault
      = (compile theme s ts).map Prod.fst := by
  induction ts generalizing s with
  | nil => rfl
  | cons tok ts ih =>
    have hrest : ∀ (next : Stack) (r : Run),
        (Run.ofTokens theme next ts >>= fun rs =>
            (.ok (r :: rs) : Except Fault (List Run))).mapError BuildFault.fault
          = (compile theme next ts >>= fun after =>
            (.ok (r :: after.1, after.2) : Except BuildFault (List Run × Stack))).map
              Prod.fst := by
      intro next r
      have hnext := ih next
      cases hruns : Run.ofTokens theme next ts <;> cases hcompile : compile theme next ts <;>
        rw [hruns, hcompile] at hnext
      · exact hnext
      · exact nomatch hnext
      · exact nomatch hnext
      · exact congrArg (fun rs => Except.ok (r :: rs)) (Except.ok.inj hnext)
    cases tok with
    | literal t => exact hrest s (.text t)
    | _ =>
      simp only [Run.ofTokens, compile]
      cases s.apply theme _ with
      | error fault => rfl
      | ok result => exact hrest result.2 (.style result.1 result.2.entries)

/-! ## §2. Tokens and their runs. -/

theorem tokensWidth_append (ts us : List Token) :
    tokensWidth (ts ++ us) = tokensWidth ts + tokensWidth us := by
  induction ts with
  | nil => exact (Nat.zero_add _).symm
  | cons tok ts ih =>
    show Text.width tok.plain + tokensWidth (ts ++ us) = _
    rw [ih, ← Nat.add_assoc]
    rfl

/-- The runs are those of the tokens, member by member: text is text, with the same characters, and
the styles open behind the runs are those of the stack that is left. -/
structure Matches (s : Stack) (ts : List Token) (rs : List Run) (s' : Stack) : Prop where
  isText : rs.map Run.isText = ts.map Token.isLiteral
  literal : rs.map Run.literal = ts.map Token.plain
  active : rs.foldl Run.after s.entries = s'.entries

/-- **Compiling keeps texts and their places.** -/
theorem compile_matches (h : compile theme s ts = .ok (rs, s')) : Matches s ts rs s' := by
  induction ts generalizing s rs with
  | nil =>
    obtain ⟨rfl, rfl⟩ := Prod.mk.inj (Except.ok.inj h)
    exact ⟨rfl, rfl, rfl⟩
  | cons tok ts ih =>
    cases hliteral : tok.isLiteral with
    | true =>
      cases tok with
      | literal t =>
        obtain ⟨after, hafter, h⟩ := bind_eq_ok.mp h
        obtain ⟨rfl, rfl⟩ := Prod.mk.inj (Except.ok.inj h)
        have hrest := ih hafter
        exact ⟨congrArg _ hrest.isText, congrArg _ hrest.literal, hrest.active⟩
      | _ => exact nomatch hliteral
    | false =>
      have hplain : tok.plain = [] := by
        cases tok with
        | literal t => exact nomatch hliteral
        | _ => rfl
      rw [compile_style hliteral] at h
      cases happly : s.apply theme tok with
      | error fault =>
        rw [happly] at h
        exact nomatch h
      | ok result =>
        rw [happly] at h
        obtain ⟨after, hafter, h⟩ := bind_eq_ok.mp h
        obtain ⟨rfl, rfl⟩ := Prod.mk.inj (Except.ok.inj h)
        have hrest := ih hafter
        refine ⟨?_, ?_, hrest.active⟩
        · rw [List.map_cons, List.map_cons, hrest.isText, hliteral]
          rfl
        · rw [List.map_cons, List.map_cons, hrest.literal, hplain]
          rfl

namespace Matches

variable (h : Matches s ts rs s')
include h

theorem width : runsWidth rs = tokensWidth ts := by
  have hsum : ∀ (rs : List Run) (ts : List Token), rs.map Run.literal = ts.map Token.plain →
      runsWidth rs = tokensWidth ts := by
    intro rs
    induction rs with
    | nil =>
      intro ts hts
      rw [List.map_eq_nil_iff.mp hts.symm]
      rfl
    | cons r rs ih =>
      intro ts hts
      obtain ⟨tok, rest, rfl, hplain, hrest⟩ := List.map_eq_cons_iff.mp hts.symm
      show Text.width r.literal + runsWidth rs = Text.width tok.plain + tokensWidth rest
      rw [ih rest hrest.symm, hplain]
  exact hsum rs ts h.literal

theorem any_isText : rs.any Run.isText = ts.any Token.isLiteral := by
  have hany : ∀ {α : Type} (p : α → Bool) (xs : List α), xs.any p = (xs.map p).any id := by
    intro α p xs
    rw [List.any_map]
    rfl
  rw [hany, hany Token.isLiteral, h.isText]

theorem isEmpty : rs.isEmpty = ts.isEmpty := by
  have hlength := congrArg List.length h.isText
  rw [List.length_map, List.length_map] at hlength
  rw [Bool.eq_iff_iff, List.isEmpty_iff_length_eq_zero, List.isEmpty_iff_length_eq_zero, hlength]

end Matches

/-! ## §3. Units. -/

/-- The tokens of a unit. -/
def TokenUnit.tokens : TokenUnit → List Token
  | .word parts => parts
  | .blank t => [.literal t]
  | .newline => []

/-- The unit of the layout, if `rs` are the runs of the tokens of the unit. -/
def TokenUnit.compiled (rs : List Run) : TokenUnit → LayoutUnit
  | .word _ => .word rs
  | .blank t => .blank t
  | .newline => .newline

/-- Compiles units one after the other. -/
def compileUnits (theme : Theme) (s : Stack) :
    List TokenUnit → Except BuildFault (List LayoutUnit)
  | [] => .ok []
  | u :: rest => do
    let first ← compile theme s u.tokens
    return u.compiled first.1 :: (← compileUnits theme first.2 rest)

/-- An ended word is compiled first. -/
theorem compileUnits_flush (theme : Theme) (s : Stack) (word : List Token)
    (units : List TokenUnit) :
    compileUnits theme s (TokenUnit.flush word units) = compile theme s word >>= fun first =>
      compileUnits theme first.2 units >>= fun rest => .ok (LayoutUnit.flush first.1 rest) := by
  unfold TokenUnit.flush LayoutUnit.flush
  cases word with
  | nil =>
    show compileUnits theme s units = compileUnits theme s units >>= fun rest => .ok rest
    cases compileUnits theme s units <;> rfl
  | cons tok word =>
    show compile theme s (tok :: word) >>= (fun first => compileUnits theme first.2 units >>=
      fun rest => .ok (.word first.1 :: rest)) = _
    cases hword : compile theme s (tok :: word) with
    | error e => rfl
    | ok first =>
      have hempty : first.1.isEmpty = false := (compile_matches hword).isEmpty
      simp only [ok_bind, hempty, Bool.false_eq_true, if_false]

/-- Units that end words in front of other units. -/
theorem flush_append_units (word : List Token) (units more : List TokenUnit) :
    TokenUnit.flush word units ++ more = TokenUnit.flush word (units ++ more) := by
  unfold TokenUnit.flush
  split <;> rfl

/-- **The units of a literal text**, in front of those of the tokens behind it. -/
theorem compileUnits_ofChunks {rest : List Token}
    (hrest : ∀ word s, compileUnits theme s (TokenUnit.ofTokens word rest)
      = compile theme s word >>= fun first => compile theme first.2 rest >>= fun second =>
        .ok (LayoutUnit.ofRuns first.1 second.1))
    (cs : List Chunk) (word : List Token) (s : Stack) :
    compileUnits theme s ((TokenUnit.ofChunks word cs).1
        ++ TokenUnit.ofTokens (TokenUnit.ofChunks word cs).2 rest)
      = compile theme s word >>= fun first => compile theme first.2 rest >>= fun second =>
        .ok ((LayoutUnit.ofChunks first.1 cs).1
          ++ LayoutUnit.ofRuns (LayoutUnit.ofChunks first.1 cs).2 second.1) := by
  -- on the chunks, for any open word: ink joins it, and a bar, blank or newline, ends it
  induction cs generalizing word s with
  | nil => exact hrest word s
  | cons chunk cs ih =>
    have hbar : ∀ (bar : TokenUnit) (bar' : LayoutUnit),
        (∀ s units, compileUnits theme s (bar :: units)
          = compileUnits theme s units >>= fun rest => .ok (bar' :: rest)) →
        compileUnits theme s (TokenUnit.flush word (bar :: (TokenUnit.ofChunks [] cs).1)
            ++ TokenUnit.ofTokens (TokenUnit.ofChunks [] cs).2 rest)
          = compile theme s word >>= fun first => compile theme first.2 rest >>= fun second =>
            .ok (LayoutUnit.flush first.1 (bar' :: (LayoutUnit.ofChunks [] cs).1)
              ++ LayoutUnit.ofRuns (LayoutUnit.ofChunks [] cs).2 second.1) := by
      intro bar bar' hcompiled
      rw [flush_append_units, compileUnits_flush]
      cases compile theme s word with
      | error e => rfl
      | ok first =>
        simp only [ok_bind, List.cons_append, hcompiled, ih [], compile_nil, flush_append]
        cases compile theme first.2 rest <;> rfl
    cases chunk with
    | ink t =>
      show compileUnits theme s ((TokenUnit.ofChunks (word ++ [.literal t]) cs).1
        ++ TokenUnit.ofTokens (TokenUnit.ofChunks (word ++ [.literal t]) cs).2 rest) = _
      rw [ih, compile_append]
      cases compile theme s word <;> rfl
    | newline => exact hbar .newline .newline fun _ _ => rfl
    | blank t => exact hbar (.blank t) (.blank t) fun _ _ => rfl

/-- **The units of tokens, compiled, are the units of their runs.** -/
theorem compileUnits_ofTokens (theme : Theme) (ts word : List Token) (s : Stack) :
    compileUnits theme s (TokenUnit.ofTokens word ts)
      = compile theme s word >>= fun first => compile theme first.2 ts >>= fun second =>
        .ok (LayoutUnit.ofRuns first.1 second.1) := by
  induction ts generalizing word s with
  | nil =>
    show compileUnits theme s (TokenUnit.flush word []) = _
    rw [compileUnits_flush]
    rfl
  | cons tok ts ih =>
    cases hliteral : tok.isLiteral with
    | true =>
      cases tok with
      | literal t =>
        show compileUnits theme s ((TokenUnit.ofChunks word t.chunks).1
          ++ TokenUnit.ofTokens (TokenUnit.ofChunks word t.chunks).2 ts) = _
        rw [compileUnits_ofChunks (fun word s => ih word s)]
        cases compile theme s word with
        | error e => rfl
        | ok first =>
          simp only [ok_bind, compile]
          cases compile theme first.2 ts <;> rfl
      | _ => exact nomatch hliteral
    | false =>
      have hjoin : TokenUnit.ofTokens word (tok :: ts) = TokenUnit.ofTokens (word ++ [tok]) ts := by
        cases tok with
        | literal t => exact nomatch hliteral
        | _ => rfl
      rw [hjoin, ih, compile_append]
      cases compile theme s word with
      | error e => rfl
      | ok first =>
        simp only [ok_bind, compile_style hliteral, compile]
        cases first.2.apply theme tok with
        | error fault => rfl
        | ok result =>
          obtain ⟨codes, next⟩ := result
          simp only [ok_bind]
          cases compile theme next ts <;> rfl

/-! ## §4. Texts of words. -/

/-- No text of a word is empty. -/
def TokenUnit.Inked : TokenUnit → Prop
  | .word parts => ∀ t, Token.literal t ∈ parts → t ≠ []
  | _ => True

/-- The units are inked, and so is the word that is still open. -/
theorem flush_inked {word : List Token} {units : List TokenUnit}
    (hword : (TokenUnit.word word).Inked) (hunits : ∀ u ∈ units, u.Inked) :
    ∀ u ∈ TokenUnit.flush word units, u.Inked := by
  unfold TokenUnit.flush
  split
  · exact hunits
  · exact List.forall_mem_cons.mpr ⟨hword, hunits⟩

theorem ofChunks_inked {cs : List Chunk} (hcs : Chunk.Cut cs) {word : List Token}
    (hword : (TokenUnit.word word).Inked) :
    (∀ u ∈ (TokenUnit.ofChunks word cs).1, u.Inked)
      ∧ (TokenUnit.word (TokenUnit.ofChunks word cs).2).Inked := by
  have hnone : (TokenUnit.word []).Inked := fun t ht => nomatch ht
  induction hcs generalizing word with
  | nil => exact ⟨fun _ hu => (nomatch hu), hword⟩
  | newline _ ih =>
    obtain ⟨hunits, hlast⟩ := ih hnone
    exact ⟨flush_inked hword (List.forall_mem_cons.mpr ⟨trivial, hunits⟩), hlast⟩
  | blank _ _ _ ih =>
    obtain ⟨hunits, hlast⟩ := ih hnone
    exact ⟨flush_inked hword (List.forall_mem_cons.mpr ⟨trivial, hunits⟩), hlast⟩
  | @ink t rest hne _ _ _ ih =>
    refine ih fun u hu => ?_
    rcases List.mem_append.mp hu with hu | hu
    · exact hword u hu
    · obtain rfl := Token.literal.inj (List.mem_singleton.mp hu)
      exact hne

/-- **No word holds an empty text**, for words are made of chunks. -/
theorem ofTokens_inked (ts word : List Token) (hword : (TokenUnit.word word).Inked) :
    ∀ u ∈ TokenUnit.ofTokens word ts, u.Inked := by
  induction ts generalizing word with
  | nil => exact flush_inked hword fun u hu => nomatch hu
  | cons tok ts ih =>
    have hjoin : tok.isLiteral = false → (TokenUnit.word (word ++ [tok])).Inked := by
      intro hliteral t ht
      rcases List.mem_append.mp ht with ht | ht
      · exact hword t ht
      · rw [← List.mem_singleton.mp ht] at hliteral
        exact nomatch hliteral
    cases tok with
    | literal t =>
      obtain ⟨hunits, hlast⟩ := ofChunks_inked (chunks_cut t) hword
      intro u hu
      rcases List.mem_append.mp hu with hu | hu
      · exact hunits u hu
      · exact ih _ hlast u hu
    | _ => exact ih _ (hjoin rfl)

end TermMarkup
