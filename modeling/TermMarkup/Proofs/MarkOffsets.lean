/-
  TermMarkup.Proofs.MarkOffsets
  ─────────────────────────────
  WHERE MARKS STAND.  A token stands behind all the tokens before it, so its
  offsets are the lengths of what they stand for.  The separate scans for tags
  and for codes find their marks at the same offsets: a scan for one kind spells
  the marks of the other kind out, and a mark that is spelled out is as long as
  the mark.

    • `locate` — what is picked among the parts of a text, with its offsets;
      `locate_stands` says that it stands there,
    • `locate_spelled` — spelling out what is not picked moves nothing,
    • `ofPieces_located` — the style tokens of pieces stand where the marks do,
    • `tokens_agree` — the style tokens of a text are its tags and its codes.
-/
import TermMarkup.Proofs.CombinedScan
import TermMarkup.Proofs.Literals

namespace TermMarkup

/-! ## §1. Parts of a text with their offsets. -/

/-- Something that stands in a text, with the offsets of its start and end. -/
structure Located (α : Type) where
  start : Nat
  stop : Nat
  value : α
  deriving DecidableEq, Repr

section Parts

variable {α β : Type} {source : α → Text} {pick : α → Option β}

/-- What is picked among parts that follow each other, with the offsets of the parts; the first part
stands at `offset`. -/
def locate (source : α → Text) (pick : α → Option β) : (offset : Nat) → List α → List (Located β)
  | _, [] => []
  | offset, x :: xs =>
    let stop := offset + (source x).length
    match pick x with
    | some y => ⟨offset, stop, y⟩ :: locate source pick stop xs
    | none => locate source pick stop xs

theorem locate_cons_some {x : α} {y : β} (h : pick x = some y) (xs : List α) (offset : Nat) :
    locate source pick offset (x :: xs) = ⟨offset, offset + (source x).length, y⟩
      :: locate source pick (offset + (source x).length) xs := by
  rw [locate, h]

theorem locate_cons_none {x : α} (h : pick x = none) (xs : List α) (offset : Nat) :
    locate source pick offset (x :: xs)
      = locate source pick (offset + (source x).length) xs := by
  rw [locate, h]

/-- The offsets left out, there is what is picked. -/
theorem locate_value (offset : Nat) (xs : List α) :
    (locate source pick offset xs).map Located.value = xs.filterMap pick := by
  induction xs generalizing offset with
  | nil => rfl
  | cons x xs ih =>
    cases hx : pick x with
    | some y => rw [locate_cons_some hx, List.map_cons, ih, List.filterMap_cons_some hx]
    | none => rw [locate_cons_none hx, ih, List.filterMap_cons_none hx]

/-- **Parts stand at their offsets**: what lies between them is the part. -/
theorem locate_stands {xs : List α} {x : Located α} (before : Text)
    (h : x ∈ locate source some before.length xs) :
    ((before ++ xs.flatMap source).drop x.start).take (x.stop - x.start) = source x.value := by
  induction xs generalizing before with
  | nil => exact nomatch h
  | cons y ys ih =>
    rw [List.flatMap_cons]
    rcases List.mem_cons.mp h with rfl | h
    · show ((before ++ (source y ++ _)).drop before.length).take _ = source y
      rw [List.drop_left, Nat.add_sub_cancel_left, List.take_left]
    · rw [← List.append_assoc]
      refine ih (before ++ source y) ?_
      rw [List.length_append]
      exact h

end Parts

/-! ## §2. Tags and codes among pieces. -/

/-- The tag of a piece, by its kind and body. -/
def Piece.tag? : Piece → Option (Bool × Text)
  | mark (.tag closes body) => some (closes, body)
  | _ => none

/-- The code of a piece. -/
def Piece.code? : Piece → Option Text
  | mark (.code params) => some (Sgr.code params)
  | _ => none

/-- The codes of a text with their offsets, as a scan for codes alone finds them. -/
def Text.locatedCodes (t : Text) : List (Located Text) :=
  locate Piece.source Piece.code? 0 (pieces Mark.code? t)

/-- The codes with their offsets are the codes of the text. -/
theorem locatedCodes_value (t : Text) : t.locatedCodes.map Located.value = t.codes := by
  have hcodes : ∀ m, Piece.mark m ∈ pieces Mark.code? t → ∃ p, m = .code p := by
    intro m hm
    obtain ⟨b, t', hread⟩ := mem_scan hm
    obtain ⟨p, -, hcode, -⟩ := code?_eq_some_iff.mp hread
    exact ⟨p, hcode⟩
  -- all marks are listed among the codes, so it matters that no tag is among them
  unfold Text.locatedCodes Text.codes marksOf
  rw [locate_value, List.map_filterMap]
  refine List.filterMap_congr fun p hp => ?_
  cases p with
  | plain c => rfl
  | mark m =>
    obtain ⟨params, rfl⟩ := hcodes m hp
    rfl

/-- A tag where the parts of a text place it. -/
def Tag.ofLocated (x : Located (Bool × Text)) : Tag := ⟨x.start, x.stop, x.value.1, x.value.2⟩

theorem tagsFrom_eq (offset : Nat) (ps : List Piece) :
    tagsFrom offset ps = (locate Piece.source Piece.tag? offset ps).map Tag.ofLocated := by
  induction ps generalizing offset with
  | nil => rfl
  | cons p ps ih =>
    have hrest := ih (offset + p.source.length)
    cases p with
    | plain c => exact hrest
    | mark m =>
      cases m with
      | code params => exact hrest
      | tag closes body => exact congrArg (_ :: ·) hrest

section Spelling

variable {β : Type} {pick : Piece → Option β}

/-- Text that is spelled out takes its length. -/
theorem locate_plain_append (hplain : ∀ c, pick (.plain c) = none) (offset : Nat) (u : Text)
    (ps : List Piece) : locate Piece.source pick offset (u.map .plain ++ ps)
      = locate Piece.source pick (offset + u.length) ps := by
  induction u generalizing offset with
  | nil => rfl
  | cons c u ih =>
    rw [List.map_cons, List.cons_append, locate_cons_none (hplain c), ih, List.length_cons,
      Nat.add_comm u.length 1, ← Nat.add_assoc]
    rfl

/-- **Spelling out pieces that are not picked moves nothing.** -/
theorem locate_spelled {spell : Piece → List Piece} (hplain : ∀ c, pick (.plain c) = none)
    (hspell : ∀ p, spell p = [p] ∨ pick p = none ∧ spell p = p.source.map .plain) (offset : Nat)
    (ps : List Piece) :
    locate Piece.source pick offset (ps.flatMap spell) = locate Piece.source pick offset ps := by
  induction ps generalizing offset with
  | nil => rfl
  | cons p ps ih =>
    rw [List.flatMap_cons]
    rcases hspell p with hkept | ⟨hnone, hspelled⟩
    · rw [hkept, List.singleton_append]
      cases hp : pick p with
      | some y => rw [locate_cons_some hp, locate_cons_some hp, ih]
      | none => rw [locate_cons_none hp, locate_cons_none hp, ih]
    · rw [hspelled, locate_plain_append hplain, locate_cons_none hnone, ih]

end Spelling

/-- The tags of a text are those that the combined scan finds. -/
theorem tags_eq_tagsFrom (t : Text) : t.tags = tagsFrom 0 (pieces Mark.any? t) := by
  unfold Text.tags pieces
  rw [scan_tag?_eq, tagsFrom_eq, tagsFrom_eq, locate_spelled fun _ => rfl]
  intro p
  match p with
  | .plain _ | .mark (.tag _ _) => exact .inl rfl
  | .mark (.code _) => exact .inr ⟨rfl, rfl⟩

/-- The codes of a text are those that the combined scan finds. -/
theorem locatedCodes_eq (t : Text) :
    t.locatedCodes = locate Piece.source Piece.code? 0 (pieces Mark.any? t) := by
  unfold Text.locatedCodes pieces
  rw [scan_code?_eq, locate_spelled fun _ => rfl]
  intro p
  match p with
  | .plain _ | .mark (.code _) => exact .inl rfl
  | .mark (.tag _ _) => exact .inr ⟨rfl, rfl⟩

/-! ## §3. Style tokens. -/

/-- The token, if it is that of a tag. -/
def Token.tag? : Token → Option Token
  | tagOpen source words => some (tagOpen source words)
  | tagClose source words => some (tagClose source words)
  | _ => none

/-- The code of a token. -/
def Token.code? : Token → Option Text
  | codeOpen code _ | codeClose code => some code
  | _ => none

/-- The token of a tag. -/
def Tag.token (tag : Tag) : Token :=
  if tag.closes then .tagClose tag.source (Text.styleWords tag.body)
  else .tagOpen tag.source (Text.styleWords tag.body)

/-- The token of a tag, at the tag's place. -/
def Tag.locatedToken (tag : Tag) : Located Token := ⟨tag.start, tag.stop, tag.token⟩

/-- The token of a code switches something on exactly if the code has an effect that does. -/
theorem ofCode_eq_ok {code : Text} {tok : Token} (h : Token.ofCode code = .ok tok) :
    ∃ es, Effect.ofCode code = .ok es
      ∧ tok = if es.any Effect.isOn
          then .codeOpen code ((es.filter Effect.isOn).flatMap Effect.closeCode)
          else .codeClose code := by
  obtain ⟨es, hes, h⟩ := bind_eq_ok.mp h
  refine ⟨es, hes, ?_⟩
  have hempty : (es.filter Effect.isOn).isEmpty = !es.any Effect.isOn := by
    rw [Bool.eq_iff_iff]
    simp
  dsimp only at h
  rw [hempty] at h
  cases hany : es.any Effect.isOn with
  | true =>
    rw [hany] at h
    exact (Except.ok.inj h).symm
  | false =>
    rw [hany] at h
    exact (Except.ok.inj h).symm

/-- A plain character in front of tokens moves those behind it by one place. -/
theorem locate_consPlain {β : Type} {pick : Token → Option β}
    (hliteral : ∀ u, pick (.literal u) = none) (c : Char) (ts : List Token) (offset : Nat) :
    locate Token.source pick offset (Token.consPlain c ts)
      = locate Token.source pick (offset + 1) ts := by
  unfold Token.consPlain
  split
  · next u rest =>
    rw [locate_cons_none (hliteral _), locate_cons_none (hliteral _)]
    -- the character joins the literal behind it, which then starts one place before
    show locate _ _ (offset + (u.length + 1)) rest = locate _ _ (offset + 1 + u.length) rest
    rw [Nat.add_comm u.length 1, ← Nat.add_assoc]
  · exact locate_cons_none (hliteral _) ts offset

variable {ps : List Piece} {ts : List Token}

/-- **The style tokens of pieces stand where the marks do.** -/
theorem ofPieces_located (h : Token.ofPieces ps = .ok ts) (offset : Nat) :
    locate Token.source Token.tag? offset ts = (tagsFrom offset ps).map Tag.locatedToken
      ∧ locate Token.source Token.code? offset ts
          = locate Piece.source Piece.code? offset ps := by
  induction ps generalizing ts offset with
  | nil =>
    obtain rfl := Except.ok.inj h
    exact ⟨rfl, rfl⟩
  | cons piece ps ih =>
    cases piece with
    | plain c =>
      obtain ⟨rest, hrest, h⟩ := bind_eq_ok.mp h
      obtain rfl := Except.ok.inj h
      rw [locate_consPlain fun _ => rfl, locate_consPlain fun _ => rfl]
      exact ih hrest (offset + 1)
    | mark m =>
      obtain ⟨tok, htok, h⟩ := bind_eq_ok.mp h
      obtain ⟨rest, hrest, h⟩ := bind_eq_ok.mp h
      obtain rfl := Except.ok.inj h
      obtain ⟨htags, hcodes⟩ := ih hrest (offset + m.source.length)
      have hsource := (ofMark_source htok).1
      rw [← hsource] at htags hcodes
      cases m with
      | code params =>
        obtain ⟨es, -, htoken⟩ :=
          ofCode_eq_ok (show Token.ofCode (Sgr.code params) = .ok tok from htok)
        -- either token of a code has the code for its source
        have hkind : tok.tag? = none ∧ tok.code? = some (Sgr.code params) := by
          rw [htoken]
          split <;> exact ⟨rfl, rfl⟩
        rw [locate_cons_none hkind.1, locate_cons_some hkind.2, htags, hcodes, hsource]
        exact ⟨rfl, rfl⟩
      | tag closes body =>
        -- the token of a tag does not depend on where the tag stands
        have hkind : tok.tag? = some tok ∧ tok.code? = none
            ∧ ∀ start stop, tok = (Tag.mk start stop closes body).token := by
          cases closes <;> obtain rfl := Except.ok.inj htok <;> exact ⟨rfl, rfl, fun _ _ => rfl⟩
        obtain ⟨htag, hcode, htoken⟩ := hkind
        rw [locate_cons_some htag, locate_cons_none hcode, htags, hcodes, hsource]
        refine ⟨?_, rfl⟩
        show _ = Tag.locatedToken ⟨offset, offset + (Mark.tag closes body).source.length, closes,
          body⟩ :: _
        unfold Tag.locatedToken
        rw [← htoken]
        rfl

/-- The token of a code opens exactly if the code has an effect that does. -/
theorem opens_iff (h : Token.ofPieces ps = .ok ts) {tok : Token} (htok : tok ∈ ts) {code : Text}
    (hcode : tok.code? = some code) :
    ∃ es, Effect.ofCode code = .ok es
      ∧ ((∃ closes, tok = .codeOpen code closes) ↔ ∃ e ∈ es, e.isOn = true) := by
  have hstyle : tok.IsStyle := by
    cases tok with
    | literal u => exact nomatch hcode
    | _ => trivial
  obtain ⟨m, -, hm⟩ := exists_mark_of_style h tok htok hstyle
  cases m with
  | code params =>
    obtain ⟨es, hes, htoken⟩ :=
      ofCode_eq_ok (show Token.ofCode (Sgr.code params) = .ok tok from hm)
    have hsame : code = Sgr.code params := by
      rw [htoken] at hcode
      split at hcode <;> exact (Option.some.inj hcode).symm
    subst hsame
    refine ⟨es, hes, ?_⟩
    rw [← List.any_eq_true, htoken]
    cases es.any Effect.isOn with
    | true => exact ⟨fun _ => rfl, fun _ => ⟨_, rfl⟩⟩
    | false => exact ⟨fun ⟨_, heq⟩ => (nomatch heq), fun hon => (nomatch hon)⟩
  | tag closes body =>
    cases closes <;> obtain rfl := Except.ok.inj hm <;> exact nomatch hcode

/-! ## §4. Texts. -/

/-- **One scan and two separate scans agree.**  The tag tokens of a text are its tags and the code
tokens are its codes, at the same offsets; each token stands at its offsets; and the token of a code
opens exactly if the code has an effect that switches something on. -/
theorem tokens_agree {t : Text} (h : t.tokens = .ok ts) :
    locate Token.source Token.tag? 0 ts = t.tags.map Tag.locatedToken
      ∧ locate Token.source Token.code? 0 ts = t.locatedCodes
      ∧ ts.filterMap Token.code? = t.codes
      ∧ (∀ x ∈ locate Token.source some 0 ts,
          (t.drop x.start).take (x.stop - x.start) = x.value.source)
      ∧ ∀ tok ∈ ts, ∀ code, tok.code? = some code → ∃ es, Effect.ofCode code = .ok es
          ∧ ((∃ closes, tok = .codeOpen code closes) ↔ ∃ e ∈ es, e.isOn = true) := by
  have hsource := tokens_source h
  obtain ⟨-, -, hpieces⟩ := bind_eq_ok.mp h
  obtain ⟨htags, hcodes⟩ := ofPieces_located hpieces 0
  rw [← tags_eq_tagsFrom] at htags
  rw [← locatedCodes_eq] at hcodes
  refine ⟨htags, hcodes, ?_, fun x hx => ?_, fun tok htok code => opens_iff hpieces htok⟩
  · rw [← locatedCodes_value, ← hcodes, locate_value]
  · have hstands := locate_stands [] hx
    rw [List.nil_append, hsource] at hstands
    exact hstands

/-- A tag right behind a code, doubled braces between marks, and a code that opens behind one that
only closes. -/
theorem tokens_agree_abutting :
    Text.tokens "\x1b[0m{bold}\x7b\x7bx\x7d\x1b[22;31m{/bold}".toList
        = .ok [.codeClose "\x1b[0m".toList, .tagOpen "{bold}".toList ["bold".toList],
            .literal "\x7b\x7bx\x7d".toList,
            .codeOpen "\x1b[22;31m".toList "\x1b[39m".toList,
            .tagClose "{/bold}".toList ["bold".toList]]
      ∧ (Text.tags "\x1b[0m{bold}\x7b\x7bx\x7d\x1b[22;31m{/bold}".toList).map Tag.locatedToken
          = [⟨4, 10, .tagOpen "{bold}".toList ["bold".toList]⟩,
              ⟨22, 29, .tagClose "{/bold}".toList ["bold".toList]⟩]
      ∧ Text.locatedCodes "\x1b[0m{bold}\x7b\x7bx\x7d\x1b[22;31m{/bold}".toList
          = [⟨0, 4, "\x1b[0m".toList⟩, ⟨14, 22, "\x1b[22;31m".toList⟩]
      ∧ ∃ es, Effect.ofCode "\x1b[22;31m".toList = .ok es ∧ ∃ e ∈ es, e.isOn = true := by
  have h : Text.tokens "\x1b[0m{bold}\x7b\x7bx\x7d\x1b[22;31m{/bold}".toList
      = .ok [.codeClose "\x1b[0m".toList, .tagOpen "{bold}".toList ["bold".toList],
          .literal "\x7b\x7bx\x7d".toList,
          .codeOpen "\x1b[22;31m".toList "\x1b[39m".toList,
          .tagClose "{/bold}".toList ["bold".toList]] := by
    decide +kernel
  obtain ⟨htags, hcodes, -, -, hopens⟩ := tokens_agree h
  refine ⟨h, htags.symm, hcodes.symm, ?_⟩
  obtain ⟨es, hes, hiff⟩ := hopens
    (.codeOpen "\x1b[22;31m".toList "\x1b[39m".toList) (by decide) _ rfl
  exact ⟨es, hes, hiff.mp ⟨_, rfl⟩⟩

end TermMarkup
