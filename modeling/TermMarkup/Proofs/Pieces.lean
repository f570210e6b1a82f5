/-
  TermMarkup.Proofs.Pieces
  ────────────────────────
  THE SCAN LOSES NOTHING.  The pieces of a text, as they stand in it, make the
  text again, and so do the tokens that the pieces are gathered into.  What is
  literal among the tokens is what is plain among the pieces.

    • `scan_source` — the pieces make the text again,
    • `ofPieces_source`, `ofPieces_plain` — gathering pieces into tokens,
    • `tokens_source` — the tokens make the text again,
    • `tokens_plain` — the literal text is the text without its marks.
-/
import TermMarkup.Proofs.Coded
import TermMarkup.Proofs.Tokens

namespace TermMarkup

/-! ## §1. The pieces of a text. -/

/-- What the recogniser finds stands at the start of the text. -/
def Recognizer.Finds (read : Recognizer) : Prop :=
  ∀ b t m, read b t = some m → ∃ rest, t = m.source ++ rest

theorem code?_finds : Recognizer.Finds Mark.code? := by
  intro b t m h
  obtain ⟨p, rest, -, rfl, hsource⟩ := code?_eq_some h
  exact ⟨rest, hsource⟩

theorem tag?_finds : Recognizer.Finds Mark.tag? := by
  intro b t m h
  obtain ⟨closes, body, rest, -, -, -, hsource⟩ := tag?_eq_some h
  exact ⟨rest, hsource⟩

theorem any?_finds : Recognizer.Finds Mark.any? := by
  intro b t m h
  unfold Mark.any? at h
  cases hcode : Mark.code? b t with
  | some m' =>
    rw [hcode] at h
    obtain rfl := Option.some.inj h
    exact code?_finds b t m' hcode
  | none =>
    rw [hcode] at h
    exact tag?_finds b t m h

/-- Behind a mark the scan goes on with what follows it: a mark has a first character, which is the
one that the scan stands at. -/
theorem drop_source {c : Char} {cs rest : Text} {m : Mark} (h : c :: cs = m.source ++ rest) :
    cs.drop (m.source.length - 1) = rest := by
  cases hm : m.source with
  | nil => exact absurd hm (source_ne_nil m)
  | cons d ds =>
    rw [hm] at h
    obtain ⟨-, rfl⟩ := List.cons.inj h
    exact List.drop_left

/-- **The pieces of a text make the text again.** -/
theorem scan_source {read : Recognizer} (hread : read.Finds) (b : Bool) (t : Text) :
    (scan read b t).flatMap Piece.source = t := by
  induction b, t using scan.induct read with
  | case1 b =>
    rw [scan]
    rfl
  | case2 b c cs m hm ih =>
    obtain ⟨rest, hsource⟩ := hread b (c :: cs) m hm
    rw [drop_source hsource] at ih
    rw [hsource] at hm ⊢
    rw [scan_mark hm, List.flatMap_cons, ih]
    rfl
  | case3 b c cs hm ih =>
    rw [scan_plain hm, List.flatMap_cons, ih]
    rfl

/-! ## §2. The tokens of pieces. -/

theorem ofMark_source {m : Mark} {tok : Token} (h : Token.ofMark m = .ok tok) :
    tok.source = m.source ∧ tok.plain = [] := by
  cases m with
  | code p =>
    obtain ⟨es, -, h⟩ := bind_eq_ok.mp (show Token.ofCode (Sgr.code p) = .ok tok from h)
    dsimp only at h
    split at h <;> obtain rfl := Except.ok.inj h <;> exact ⟨rfl, rfl⟩
  | tag closes body =>
    cases closes <;> obtain rfl := Except.ok.inj h <;> exact ⟨rfl, rfl⟩

/-- A plain character in front of tokens is in front of their text. -/
theorem consPlain_flatMap {f : Token → Text} (hf : ∀ t, f (.literal t) = t) (c : Char)
    (ts : List Token) : (Token.consPlain c ts).flatMap f = c :: ts.flatMap f := by
  unfold Token.consPlain
  split
  · rw [List.flatMap_cons, List.flatMap_cons, hf, hf]
    rfl
  · rw [List.flatMap_cons, hf]
    rfl

variable {ps : List Piece} {ts : List Token}

/-- **The tokens of pieces stand in the text as the pieces do.** -/
theorem ofPieces_source (h : Token.ofPieces ps = .ok ts) :
    ts.flatMap Token.source = ps.flatMap Piece.source := by
  induction ps generalizing ts with
  | nil =>
    obtain rfl := Except.ok.inj h
    rfl
  | cons piece ps ih =>
    cases piece with
    | plain c =>
      obtain ⟨rest, hrest, h⟩ := bind_eq_ok.mp h
      obtain rfl := Except.ok.inj h
      rw [consPlain_flatMap (fun _ => rfl), ih hrest]
      rfl
    | mark m =>
      obtain ⟨tok, htok, h⟩ := bind_eq_ok.mp h
      obtain ⟨rest, hrest, h⟩ := bind_eq_ok.mp h
      obtain rfl := Except.ok.inj h
      rw [List.flatMap_cons, List.flatMap_cons, (ofMark_source htok).1, ih hrest]
      rfl

/-- **What is literal among the tokens is what is plain among the pieces.** -/
theorem ofPieces_plain (h : Token.ofPieces ps = .ok ts) :
    ts.flatMap Token.plain = plainOf ps := by
  induction ps generalizing ts with
  | nil =>
    obtain rfl := Except.ok.inj h
    rfl
  | cons piece ps ih =>
    cases piece with
    | plain c =>
      obtain ⟨rest, hrest, h⟩ := bind_eq_ok.mp h
      obtain rfl := Except.ok.inj h
      rw [consPlain_flatMap (fun _ => rfl), ih hrest, plainOf_plain]
    | mark m =>
      obtain ⟨tok, htok, h⟩ := bind_eq_ok.mp h
      obtain ⟨rest, hrest, h⟩ := bind_eq_ok.mp h
      obtain rfl := Except.ok.inj h
      rw [List.flatMap_cons, (ofMark_source htok).2, ih hrest, plainOf_mark]
      rfl

/-! ## §3. The tokens of a text. -/

variable {t : Text}

/-- **The tokens of a text make the text again.** -/
theorem tokens_source (h : t.tokens = .ok ts) : ts.flatMap Token.source = t := by
  obtain ⟨-, -, h⟩ := bind_eq_ok.mp h
  rw [ofPieces_source h]
  exact scan_source any?_finds false t

/-- **The literal text of the tokens is the text without its marks.** -/
theorem tokens_plain (h : t.tokens = .ok ts) :
    ts.flatMap Token.plain = dropMarks Mark.any? t := by
  obtain ⟨-, -, h⟩ := bind_eq_ok.mp h
  exact ofPieces_plain h

/-- The literal text stands in the text. -/
theorem tokens_plain_sublist (h : t.tokens = .ok ts) : (ts.flatMap Token.plain).Sublist t := by
  rw [tokens_plain h]
  exact plainOf_scan_sublist Mark.any? false t

end TermMarkup
