/-
  TermMarkup.Proofs.Literals
  ──────────────────────────
  LITERAL TEXT HOLDS NO MARK.  The scan passes a place as plain if no mark
  stands there in the whole text; a mark that a literal held by itself would
  stand there in the whole text as well, since more text behind a mark takes it
  not away.  What stands BEFORE a place matters for tags, and it is the same in
  both readings: a literal starts the text or stands behind a mark, and no mark
  ends in an opening brace.

    • `Text.Unmarked` — a text in which no mark stands,
    • `Token.Parted` — tokens whose literals are unmarked and stand apart,
    • `scan_parted` — such are the tokens of a scan,
    • `tokens_partition` — the tokens of a text partition it.
-/
import TermMarkup.Proofs.MarkForms
import TermMarkup.Sgr.Code
import Mathlib.Data.List.Chain

namespace TermMarkup

/-! ## §1. Text without marks. -/

/-- No mark stands in the text, read by itself; the flag says whether an opening brace stands
before. -/
structure Text.Unmarked (afterBrace : Bool) (u : Text) : Prop where
  noCode : scan Mark.code? afterBrace u = u.map .plain
  noTag : scan Mark.tag? afterBrace u = u.map .plain

/-- Where nothing is recognised in a text, nothing is in a part of it that starts there. -/
theorem Recognizer.Extends.unread {read : Recognizer} (hread : read.Extends) {b : Bool}
    {t : Text} (rest : Text) (h : read b (t ++ rest) = none) : read b t = none := by
  cases hm : read b t with
  | none => rfl
  | some m => exact absurd (hread b t m rest hm) (by simp [h])

namespace Text.Unmarked

theorem nil (b : Bool) : Unmarked b [] := by
  constructor <;> rw [scan] <;> rfl

/-- A character at which no mark stands, whatever follows the text, joins unmarked text. -/
theorem cons {b : Bool} {c : Char} {u : Text} (more : Text)
    (h : Mark.any? b (c :: (u ++ more)) = none) (hu : Unmarked (c == '{') u) :
    Unmarked b (c :: u) := by
  obtain ⟨hcode, htag⟩ := any?_eq_none_iff.mp h
  have hcode : Mark.code? b (c :: u) = none := code?_extends.unread more hcode
  have htag : Mark.tag? b (c :: u) = none := tag?_extends.unread more htag
  constructor
  · rw [scan_plain hcode, hu.noCode]
    rfl
  · rw [scan_plain htag, hu.noTag]
    rfl

theorem marksOf_plain (u : Text) : marksOf (u.map .plain) = [] :=
  List.filterMap_eq_nil_iff.mpr fun p hp => by
    obtain ⟨c, -, rfl⟩ := List.mem_map.mp hp
    rfl

theorem tagsFrom_plain (offset : Nat) (u : Text) : tagsFrom offset (u.map .plain) = [] := by
  induction u generalizing offset with
  | nil => rfl
  | cons c u ih => exact ih _

theorem hasCodes_eq {u : Text} (h : Unmarked false u) : u.hasCodes = false := by
  unfold hasCodes pieces
  rw [h.noCode, marksOf_plain]
  rfl

theorem tags_eq {u : Text} (h : Unmarked false u) : u.tags = [] := by
  unfold tags pieces
  rw [h.noTag, tagsFrom_plain]

end Text.Unmarked

/-! ## §2. Tokens whose literals stand apart. -/

/-- Every literal among the tokens is unmarked, not empty, and followed by no other one.  The flag
says whether an opening brace stands before the first; the others stand behind a mark. -/
def Token.Parted : (afterBrace : Bool) → List Token → Prop
  | _, [] => True
  | afterBrace, .literal u :: rest =>
    (u ≠ [] ∧ u.Unmarked afterBrace) ∧ (∀ tok ∈ rest.head?, tok.IsStyle) ∧ Parted false rest
  | _, _ :: rest => Parted false rest

variable {b : Bool} {ts : List Token}

theorem parted_style {tok : Token} (htok : tok.IsStyle) :
    Token.Parted b (tok :: ts) ↔ Token.Parted false ts := by
  cases tok with
  | literal u => exact htok.elim
  | _ => exact Iff.rfl

theorem ofMark_isStyle {m : Mark} {tok : Token} (h : Token.ofMark m = .ok tok) : tok.IsStyle := by
  cases m with
  | code p =>
    obtain ⟨es, -, h⟩ := bind_eq_ok.mp (show Token.ofCode (Sgr.code p) = .ok tok from h)
    dsimp only at h
    split at h <;> obtain rfl := Except.ok.inj h <;> trivial
  | tag closes body =>
    cases closes <;> obtain rfl := Except.ok.inj h <;> trivial

/-- **A plain character in front of parted tokens** joins their first literal, or is one. -/
theorem consPlain_parted {c : Char} (h : Mark.any? b (c :: ts.flatMap Token.source) = none)
    (hts : Token.Parted (c == '{') ts) : Token.Parted b (Token.consPlain c ts) := by
  have hsingle : Text.Unmarked b [c] :=
    .cons (ts.flatMap Token.source) h (.nil _)
  cases ts with
  | nil => exact ⟨⟨List.cons_ne_nil _ _, hsingle⟩, fun tok htok => (nomatch htok), trivial⟩
  | cons tok ts =>
    rcases literal_or_style tok with ⟨u, rfl⟩ | hstyle
    · obtain ⟨⟨-, hu⟩, hnext, hrest⟩ := hts
      exact ⟨⟨List.cons_ne_nil _ _, .cons _ h hu⟩, hnext, hrest⟩
    · -- behind the new literal stands a mark, whatever stood before it
      have hrest : Token.Parted false (tok :: ts) :=
        (parted_style hstyle).mpr ((parted_style hstyle).mp hts)
      have hhead : ∀ x ∈ (tok :: ts).head?, x.IsStyle := by
        intro x hx
        obtain rfl := Option.some.inj hx
        exact hstyle
      have hcons : Token.consPlain c (tok :: ts) = .literal [c] :: tok :: ts := by
        cases tok with
        | literal u => exact hstyle.elim
        | _ => rfl
      rw [hcons]
      exact ⟨⟨List.cons_ne_nil _ _, hsingle⟩, hhead, hrest⟩

/-- **The literals of a scan stand apart and hold no mark.** -/
theorem scan_parted {t : Text} (h : Token.ofPieces (scan Mark.any? b t) = .ok ts) :
    Token.Parted b ts := by
  -- along the scan: a plain place joins the tokens behind it, a mark stands before them
  induction b, t using scan.induct Mark.any? generalizing ts with
  | case1 b =>
    rw [scan] at h
    obtain rfl := Except.ok.inj h
    trivial
  | case2 b c cs m hm ih =>
    rw [scan, hm] at h
    obtain ⟨tok, htok, h⟩ := bind_eq_ok.mp h
    obtain ⟨rest, hrest, h⟩ := bind_eq_ok.mp h
    obtain rfl := Except.ok.inj h
    exact (parted_style (ofMark_isStyle htok)).mpr (ih hrest)
  | case3 b c cs hm ih =>
    rw [scan, hm] at h
    obtain ⟨rest, hrest, h⟩ := bind_eq_ok.mp h
    obtain rfl := Except.ok.inj h
    have hsource : rest.flatMap Token.source = cs := by
      rw [ofPieces_source hrest]
      exact scan_source any?_finds _ cs
    exact consPlain_parted (hsource ▸ hm) (ih hrest)

namespace Token.Parted

/-- A literal of parted tokens, none of which stands behind an opening brace. -/
theorem literal (h : Token.Parted false ts) {u : Text} (hu : Token.literal u ∈ ts) :
    u ≠ [] ∧ u.Unmarked false := by
  induction ts with
  | nil => exact nomatch hu
  | cons tok ts ih =>
    rcases literal_or_style tok with ⟨v, rfl⟩ | hstyle
    · obtain ⟨hv, -, hrest⟩ := h
      rcases List.mem_cons.mp hu with heq | hu
      · obtain rfl := Token.literal.inj heq
        exact hv
      · exact ih hrest hu
    · rcases List.mem_cons.mp hu with rfl | hu
      · exact hstyle.elim
      · exact ih ((parted_style hstyle).mp h) hu

/-- Of two neighbours among parted tokens one is a style token. -/
theorem isChain (h : Token.Parted b ts) :
    ts.IsChain fun tok next => tok.IsStyle ∨ next.IsStyle := by
  induction ts generalizing b with
  | nil => exact .nil
  | cons tok ts ih =>
    rw [List.isChain_cons]
    rcases literal_or_style tok with ⟨u, rfl⟩ | hstyle
    · obtain ⟨-, hnext, hrest⟩ := h
      exact ⟨fun next hmem => .inr (hnext next hmem), ih hrest⟩
    · exact ⟨fun _ _ => .inl hstyle, ih ((parted_style hstyle).mp h)⟩

end Token.Parted

/-! ## §3. Texts. -/

/-- The style tokens of pieces are the tokens of their marks. -/
theorem exists_mark_of_style {ps : List Piece} (h : Token.ofPieces ps = .ok ts) :
    ∀ tok ∈ ts, tok.IsStyle → ∃ m, Piece.mark m ∈ ps ∧ Token.ofMark m = .ok tok := by
  induction ps generalizing ts with
  | nil =>
    obtain rfl := Except.ok.inj h
    exact fun tok htok => nomatch htok
  | cons piece ps ih =>
    have hmore : ∀ {rest : List Token}, Token.ofPieces ps = .ok rest → ∀ tok ∈ rest,
        tok.IsStyle → ∃ m, Piece.mark m ∈ piece :: ps ∧ Token.ofMark m = .ok tok := by
      intro rest hrest tok htok hstyle
      obtain ⟨m, hm, hof⟩ := ih hrest tok htok hstyle
      exact ⟨m, List.mem_cons_of_mem _ hm, hof⟩
    cases piece with
    | plain c =>
      obtain ⟨rest, hrest, h⟩ := bind_eq_ok.mp h
      obtain rfl := Except.ok.inj h
      exact forall_consPlain (fun _ hliteral => hliteral.elim) (hmore hrest)
    | mark m =>
      obtain ⟨tok, htok, h⟩ := bind_eq_ok.mp h
      obtain ⟨rest, hrest, h⟩ := bind_eq_ok.mp h
      obtain rfl := Except.ok.inj h
      exact List.forall_mem_cons.mpr
        ⟨fun _ => ⟨m, List.mem_cons_self, htok⟩, hmore hrest⟩

/-- **The tokens of a text partition it.**  They make the text again; every style token is that of a
mark in its form; no literal is empty or holds a mark by itself, and no two literals are
neighbours. -/
theorem tokens_partition {t : Text} (h : t.tokens = .ok ts) :
    ts.flatMap Token.source = t
      ∧ (∀ tok ∈ ts, tok.IsStyle → ∃ m : Mark, m.Formed ∧ Token.ofMark m = .ok tok)
      ∧ (∀ u, Token.literal u ∈ ts → u ≠ [] ∧ u.tags = [] ∧ u.hasCodes = false)
      ∧ ts.IsChain fun tok next => tok.IsStyle ∨ next.IsStyle := by
  obtain ⟨-, -, hpieces⟩ := bind_eq_ok.mp h
  have hparted : Token.Parted false ts := scan_parted hpieces
  refine ⟨tokens_source h, fun tok htok hstyle => ?_, fun u hu => ?_, hparted.isChain⟩
  · obtain ⟨m, hm, hof⟩ := exists_mark_of_style hpieces tok htok hstyle
    obtain ⟨b, t', hread⟩ := mem_scan hm
    exact ⟨m, (any?_eq_some hread).1, hof⟩
  · obtain ⟨hne, hunmarked⟩ := hparted.literal hu
    exact ⟨hne, hunmarked.tags_eq, hunmarked.hasCodes_eq⟩

/-- Doubled braces, one behind a code, and a malformed tag and code next to real ones. -/
theorem tokens_partition_abutting :
    Text.tokens "\x7b\x7ba\x7d\x1b[1m\x7b\x7bb\x7d{red}\x1b[3{x y}\x7b/\x7d\x1b[m".toList
        = .ok [.literal "\x7b\x7ba\x7d".toList, .codeOpen "\x1b[1m".toList "\x1b[22m".toList,
            .literal "\x7b\x7bb\x7d".toList, .tagOpen "{red}".toList ["red".toList],
            .literal "\x1b[3".toList, .tagOpen "{x y}".toList ["x".toList, "y".toList],
            .literal "\x7b/\x7d".toList, .codeClose "\x1b[m".toList]
      ∧ Text.tags "\x7b\x7bb\x7d".toList = [] ∧ Text.hasCodes "\x1b[3".toList = false := by
  have h : Text.tokens "\x7b\x7ba\x7d\x1b[1m\x7b\x7bb\x7d{red}\x1b[3{x y}\x7b/\x7d\x1b[m".toList
      = .ok [.literal "\x7b\x7ba\x7d".toList, .codeOpen "\x1b[1m".toList "\x1b[22m".toList,
          .literal "\x7b\x7bb\x7d".toList, .tagOpen "{red}".toList ["red".toList],
          .literal "\x1b[3".toList, .tagOpen "{x y}".toList ["x".toList, "y".toList],
          .literal "\x7b/\x7d".toList, .codeClose "\x1b[m".toList] := by
    decide +kernel
  obtain ⟨-, -, hliteral, -⟩ := tokens_partition h
  exact ⟨h, (hliteral _ (by decide)).2.1, (hliteral _ (by decide)).2.2⟩

end TermMarkup
