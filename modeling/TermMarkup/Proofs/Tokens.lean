/-
  TermMarkup.Proofs.Tokens
  ────────────────────────
  WHERE TOKENS COME FROM, and what they are compiled to.  Every mark that a scan
  finds is one that its recogniser takes for one, and every style token is the
  token of such a mark.
-/
import TermMarkup.Proofs.Outcome
import TermMarkup.Proofs.Scan
import TermMarkup.Run

namespace TermMarkup

/-! ## §1. Marks of a scan. -/

/-- Every mark of a scan was recognised somewhere. -/
theorem mem_scan {read : Recognizer} {b : Bool} {t : Text} {m : Mark}
    (h : Piece.mark m ∈ scan read b t) : ∃ b' t', read b' t' = some m := by
  -- along the scan: the mark is the one read here, or one of the rest
  induction b, t using scan.induct read with
  | case1 b => simp [scan] at h
  | case2 b c cs m' hm ih =>
    rw [scan, hm] at h
    rcases List.mem_cons.mp h with heq | h
    · injection heq with heq
      exact ⟨b, c :: cs, heq ▸ hm⟩
    · exact ih h
  | case3 b c cs hm ih =>
    rw [scan, hm] at h
    rcases List.mem_cons.mp h with heq | h
    · cases heq
    · exact ih h

/-- A code among the marks of a text has the parameters of a code. -/
theorem params_of_mem_pieces {t : Text} {p : Text}
    (h : Piece.mark (.code p) ∈ pieces Mark.any? t) : p.all isParamChar = true := by
  obtain ⟨b, t', hm⟩ := mem_scan h
  unfold Mark.any? at hm
  cases hcode : Mark.code? b t' with
  | some m =>
    rw [hcode] at hm
    obtain rfl := Option.some.inj hm
    obtain ⟨p', rest, hp, heq, -⟩ := code?_eq_some hcode
    injection heq with heq
    exact heq ▸ hp
  | none =>
    rw [hcode] at hm
    obtain ⟨closes, body, rest, -, -, heq, -⟩ := tag?_eq_some (show Mark.tag? b t' = _ from hm)
    exact nomatch heq

/-! ## §2. Style tokens. -/

/-- Whether the token is a style token. -/
def Token.IsStyle : Token → Prop
  | .literal _ => False
  | _ => True

instance : (tok : Token) → Decidable tok.IsStyle
  | .literal _ => .isFalse id
  | .tagOpen _ _ | .tagClose _ _ | .codeOpen _ _ | .codeClose _ => .isTrue trivial

theorem literal_or_style (tok : Token) : (∃ t, tok = .literal t) ∨ tok.IsStyle := by
  cases tok with
  | literal t => exact .inl ⟨t, rfl⟩
  | _ => exact .inr trivial

/-- The code of a token has the form of a code. -/
def Token.CodeFormed : Token → Prop
  | .codeOpen code _ | .codeClose code =>
    ∃ params, params.all isParamChar = true ∧ code = Sgr.code params
  | _ => True

/-- The token is one that some text is cut into. -/
def Token.FromText (tok : Token) : Prop := ∃ t ts, Text.tokens t = .ok ts ∧ tok ∈ ts

theorem ofMark_codeFormed {m : Mark} {tok : Token} (h : Token.ofMark m = .ok tok)
    (hm : ∀ p, m = .code p → p.all isParamChar = true) : tok.CodeFormed := by
  cases m with
  | code p =>
    obtain ⟨es, -, h⟩ := bind_eq_ok.mp (show Token.ofCode (Sgr.code p) = .ok tok from h)
    dsimp only at h
    split at h <;> obtain rfl := Except.ok.inj h <;> exact ⟨p, hm p rfl, rfl⟩
  | tag closes body =>
    cases closes <;> obtain rfl := Except.ok.inj h <;> trivial

/-- A plain character becomes literal text; the style tokens stay as they are. -/
theorem forall_consPlain {P : Token → Prop} (hP : ∀ t, P (.literal t)) {c : Char} {ts : List Token}
    (h : ∀ tok ∈ ts, P tok) : ∀ tok ∈ Token.consPlain c ts, P tok := by
  unfold Token.consPlain
  split
  · intro tok htok
    rcases List.mem_cons.mp htok with rfl | htok
    · exact hP _
    · exact h tok (List.mem_cons_of_mem _ htok)
  · intro tok htok
    rcases List.mem_cons.mp htok with rfl | htok
    · exact hP _
    · exact h tok htok

theorem ofPieces_codeFormed {ps : List Piece} {ts : List Token} (h : Token.ofPieces ps = .ok ts)
    (hp : ∀ p, Piece.mark (.code p) ∈ ps → p.all isParamChar = true) :
    ∀ tok ∈ ts, tok.CodeFormed := by
  induction ps generalizing ts with
  | nil =>
    obtain rfl := Except.ok.inj h
    simp
  | cons piece ps ih =>
    have hp' := fun p h => hp p (List.mem_cons_of_mem _ h)
    cases piece with
    | plain c =>
      obtain ⟨rest, hrest, h⟩ := bind_eq_ok.mp h
      obtain rfl := Except.ok.inj h
      exact forall_consPlain (fun _ => trivial) (ih hrest hp')
    | mark m =>
      obtain ⟨tok, htok, h⟩ := bind_eq_ok.mp h
      obtain ⟨rest, hrest, h⟩ := bind_eq_ok.mp h
      obtain rfl := Except.ok.inj h
      intro tok' htok'
      rcases List.mem_cons.mp htok' with rfl | htok'
      · exact ofMark_codeFormed htok fun p hm => hp p (hm ▸ List.mem_cons_self)
      · exact ih hrest hp' tok' htok'

/-- **The code of a token has the form of a code.** -/
theorem tokens_codeFormed {t : Text} {ts : List Token} (h : t.tokens = .ok ts) :
    ∀ tok ∈ ts, tok.CodeFormed := by
  obtain ⟨-, -, h⟩ := bind_eq_ok.mp h
  exact ofPieces_codeFormed h fun p => params_of_mem_pieces

theorem Token.FromText.codeFormed {tok : Token} (h : tok.FromText) : tok.CodeFormed := by
  obtain ⟨t, ts, ht, hmem⟩ := h
  exact tokens_codeFormed ht tok hmem

/-! ## §3. Compiling. -/

variable {theme : Theme} {ts : List Token} {rs : List Run} {s : Stack}

/-- **What compiling does with a token**: a literal becomes text, any other token is applied. -/
theorem ofTokens_cons {tok : Token} (h : Run.ofTokens theme s (tok :: ts) = .ok rs) :
    (∃ u rest, tok = .literal u ∧ Run.ofTokens theme s ts = .ok rest ∧ rs = .text u :: rest)
      ∨ ∃ codes next rest, tok.plain = [] ∧ s.apply theme tok = .ok (codes, next)
        ∧ Run.ofTokens theme next ts = .ok rest ∧ rs = .style codes next.entries :: rest := by
  cases tok with
  | literal u =>
    left
    obtain ⟨rest, hrest, h⟩ := bind_eq_ok.mp h
    exact ⟨u, rest, rfl, hrest, (Except.ok.inj h).symm⟩
  | _ =>
    right
    obtain ⟨⟨codes, next⟩, happly, h⟩ := bind_eq_ok.mp h
    obtain ⟨rest, hrest, h⟩ := bind_eq_ok.mp h
    exact ⟨codes, next, rest, rfl, happly, hrest, (Except.ok.inj h).symm⟩

/-- A style token that cannot be applied ends the compiling. -/
theorem ofTokens_error {tok : Token} (hstyle : tok.IsStyle) {fault : Fault}
    (happly : s.apply theme tok = .error fault) (ts : List Token) :
    Run.ofTokens theme s (tok :: ts) = .error fault := by
  cases tok with
  | literal u => exact hstyle.elim
  | _ =>
    simp only [Run.ofTokens, happly]
    rfl

/-- A token that is applied is compiled to what it writes and to the styles that are open then. -/
theorem ofTokens_ok {tok : Token} {codes : Text} {next : Stack}
    (happly : s.apply theme tok = .ok (codes, next)) (ts : List Token) :
    Run.ofTokens theme s (tok :: ts)
      = (Run.ofTokens theme next ts).map (.style codes next.entries :: ·) := by
  cases tok with
  | literal u => exact nomatch happly
  | _ =>
    simp only [Run.ofTokens, happly, ok_bind]
    cases Run.ofTokens theme next ts <;> rfl

theorem ofTokens_style {tok : Token} {codes : Text} {next : Stack}
    (happly : s.apply theme tok = .ok (codes, next)) (h : Run.ofTokens theme next ts = .ok rs) :
    Run.ofTokens theme s (tok :: ts) = .ok (.style codes next.entries :: rs) := by
  rw [ofTokens_ok happly, h]
  rfl

/-- The texts of compiled tokens are those of the literal tokens. -/
theorem ofTokens_text (h : Run.ofTokens theme s ts = .ok rs) {u : Text} (hu : Run.text u ∈ rs) :
    Token.literal u ∈ ts := by
  induction ts generalizing s rs with
  | nil =>
    obtain rfl := Except.ok.inj h
    exact nomatch hu
  | cons tok ts ih =>
    rcases ofTokens_cons h with ⟨v, rest, rfl, hrest, rfl⟩ | ⟨codes, next, rest, -, -, hrest, rfl⟩
    · rcases List.mem_cons.mp hu with hu | hu
      · obtain rfl := Run.text.inj hu
        exact List.mem_cons_self
      · exact List.mem_cons_of_mem _ (ih hrest hu)
    · rcases List.mem_cons.mp hu with hu | hu
      · exact nomatch hu
      · exact List.mem_cons_of_mem _ (ih hrest hu)

/-- Compiling tokens keeps their literal text. -/
theorem ofTokens_literal (h : Run.ofTokens theme s ts = .ok rs) :
    rs.flatMap Run.literal = ts.flatMap Token.plain := by
  induction ts generalizing s rs with
  | nil =>
    obtain rfl := Except.ok.inj h
    rfl
  | cons tok ts ih =>
    rcases ofTokens_cons h with
      ⟨u, rest, rfl, hrest, rfl⟩ | ⟨codes, next, rest, hplain, -, hrest, rfl⟩
    · rw [List.flatMap_cons, List.flatMap_cons, ih hrest]
      rfl
    · rw [List.flatMap_cons, List.flatMap_cons, ih hrest, hplain]
      rfl

end TermMarkup
