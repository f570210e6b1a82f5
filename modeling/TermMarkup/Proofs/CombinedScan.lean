/-
  TermMarkup.Proofs.CombinedScan
  ──────────────────────────────
  ONE SCAN FOR BOTH KINDS OF MARKS sees what two scans see, one for each kind.
  No tag holds an escape character and no code an opening brace, so marks of
  different kinds never overlap: a scan for one kind goes through the marks of
  the other as through plain text.

    • `scan_tag?_eq`, `scan_code?_eq` — the pieces of a scan for one kind are those
      of the combined scan, with the marks of the other kind spelled out,
    • `dropTags_coded` — a text without tags is what is left without any marks,
      with the codes put back in,
    • `mem_codes`, `exists_tag_of_mark` — the marks of the combined scan are among
      the codes and tags of the text.
-/
import TermMarkup.Proofs.MarkForms

namespace TermMarkup

/-! ## §1. Marks of the other kind. -/

/-- The piece with a code spelled out. -/
def Piece.spellCodes : Piece → List Piece
  | .mark (.code params) => (Sgr.code params).map .plain
  | p => [p]

/-- The piece with a tag spelled out. -/
def Piece.spellTags : Piece → List Piece
  | .mark (.tag closes body) => (Mark.tag closes body).source.map .plain
  | p => [p]

/-- **A scan for codes goes through a tag.** -/
theorem scan_code?_tag (b : Bool) {closes : Bool} {body : Text}
    (hbody : body.all isTagChar = true) (rest : Text) :
    scan Mark.code? b ((Mark.tag closes body).source ++ rest)
      = (Mark.tag closes body).source.map .plain ++ scan Mark.code? false rest := by
  rw [scan_code?_plain b (escape_notMem_tag hbody), scan_code?_flag b false]

/-! ## §2. The combined scan. -/

/-- **The pieces of a scan for tags** are those of the combined scan, its codes spelled out. -/
theorem scan_tag?_eq (b : Bool) (t : Text) :
    scan Mark.tag? b t = (scan Mark.any? b t).flatMap Piece.spellCodes := by
  -- along the combined scan: both scans stand at the same places between its marks
  induction b, t using scan.induct Mark.any? with
  | case1 b =>
    rw [scan, scan]
    rfl
  | case2 b c cs m hm ih =>
    obtain ⟨rest, hsource⟩ := any?_finds b (c :: cs) m hm
    rw [drop_source hsource] at ih
    rw [hsource] at hm ⊢
    obtain ⟨hformed, hkind⟩ := any?_eq_some hm
    rw [scan_mark hm, List.flatMap_cons, ← ih]
    cases m with
    | code p => exact scan_tag?_code b hformed rest
    | tag closes body =>
      rcases hkind with hcode | ⟨-, htag⟩
      · obtain ⟨p, -, heq, -⟩ := code?_eq_some_iff.mp hcode
        cases heq
      · exact scan_mark htag
  | case3 b c cs hm ih =>
    obtain ⟨-, htag⟩ := any?_eq_none_iff.mp hm
    rw [scan_plain hm, scan_plain htag, ih]
    rfl

/-- **The pieces of a scan for codes** are those of the combined scan, its tags spelled out. -/
theorem scan_code?_eq (b : Bool) (t : Text) :
    scan Mark.code? b t = (scan Mark.any? b t).flatMap Piece.spellTags := by
  induction b, t using scan.induct Mark.any? with
  | case1 b =>
    rw [scan, scan]
    rfl
  | case2 b c cs m hm ih =>
    obtain ⟨rest, hsource⟩ := any?_finds b (c :: cs) m hm
    rw [drop_source hsource] at ih
    rw [hsource] at hm ⊢
    obtain ⟨hformed, -⟩ := any?_eq_some hm
    rw [scan_mark hm, List.flatMap_cons, ← ih]
    cases m with
    | code p =>
      rw [scan_code?_flag false b rest]
      exact scan_code?_code b hformed rest
    | tag closes body => exact scan_code?_tag b hformed.2 rest
  | case3 b c cs hm ih =>
    obtain ⟨hcode, -⟩ := any?_eq_none_iff.mp hm
    rw [scan_plain hm, scan_plain hcode, ih]
    rfl

/-! ## §3. Texts without their tags. -/

/-- The plain characters of pieces, with their codes put back in. -/
theorem plainOf_spellCodes {ps : List Piece} (h : ∀ m, Piece.mark m ∈ ps → m.Formed) :
    Text.Coded (plainOf ps) (plainOf (ps.flatMap Piece.spellCodes)) := by
  induction ps with
  | nil => exact .nil
  | cons p ps ih =>
    have hrest := ih fun m hm => h m (List.mem_cons_of_mem _ hm)
    rw [List.flatMap_cons]
    cases p with
    | plain c => exact .char c hrest
    | mark m =>
      cases m with
      | code params =>
        show Text.Coded _ (plainOf ((Sgr.code params).map .plain ++ ps.flatMap Piece.spellCodes))
        rw [plainOf_append_plain]
        exact .code (h _ List.mem_cons_self) hrest
      | tag closes body => exact hrest

/-- The marks that the combined scan finds have their form. -/
theorem formed_of_mem_scan {b : Bool} {t : Text} {m : Mark}
    (h : Piece.mark m ∈ scan Mark.any? b t) : m.Formed := by
  obtain ⟨b', t', hm⟩ := mem_scan h
  exact (any?_eq_some hm).1

/-- **A text without tags is the text without marks, with its codes put back in.** -/
theorem dropTags_coded (t : Text) :
    Text.Coded (dropMarks Mark.any? t) (dropMarks Mark.tag? t) := by
  unfold dropMarks pieces
  rw [scan_tag?_eq]
  exact plainOf_spellCodes fun m hm => formed_of_mem_scan hm

/-! ## §4. Codes and tags of a text. -/

/-- A code among the pieces of a text is one of its codes. -/
theorem mem_codes {t p : Text} (h : Piece.mark (.code p) ∈ pieces Mark.any? t) :
    Sgr.code p ∈ t.codes := by
  have hpiece : Piece.mark (.code p) ∈ pieces Mark.code? t := by
    unfold pieces at h ⊢
    rw [scan_code?_eq]
    exact List.mem_flatMap.mpr ⟨_, h, List.mem_singleton_self _⟩
  exact List.mem_map.mpr ⟨.code p, List.mem_filterMap.mpr ⟨_, hpiece, rfl⟩, rfl⟩

/-- A tag among pieces is listed with its offsets. -/
theorem exists_tag {ps : List Piece} {closes : Bool} {body : Text}
    (h : Piece.mark (.tag closes body) ∈ ps) (offset : Nat) :
    ∃ tag ∈ tagsFrom offset ps, tag.closes = closes ∧ tag.body = body := by
  induction ps generalizing offset with
  | nil => exact nomatch h
  | cons p ps ih =>
    rcases List.mem_cons.mp h with rfl | h
    · exact ⟨_, List.mem_cons_self, rfl, rfl⟩
    · obtain ⟨tag, htag, hsame⟩ := ih h (offset + p.source.length)
      cases p with
      | plain c => exact ⟨tag, htag, hsame⟩
      | mark m =>
        cases m with
        | code params => exact ⟨tag, htag, hsame⟩
        | tag closes' body' => exact ⟨tag, List.mem_cons_of_mem _ htag, hsame⟩

/-- A tag among the pieces of a text is one of its tags. -/
theorem exists_tag_of_mark {t : Text} {closes : Bool} {body : Text}
    (h : Piece.mark (.tag closes body) ∈ pieces Mark.any? t) :
    ∃ tag ∈ t.tags, tag.closes = closes ∧ tag.body = body := by
  refine exists_tag ?_ 0
  unfold pieces at h ⊢
  rw [scan_tag?_eq]
  exact List.mem_flatMap.mpr ⟨_, h, List.mem_singleton_self _⟩

end TermMarkup
