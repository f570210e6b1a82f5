/-
  TermMarkup.Proofs.BlottedCodes
  ──────────────────────────────
  BLOTTING CODES OUT KEEPS ALL OFFSETS.  Each piece of a text is written in its
  own length, a plain character as itself and a code as copies of the filler.
  So a place inside a code holds the filler, and every other place holds what it
  held before.

  A scan finds every code that stands in a text, because only the first character
  of a code is the escape character and so two codes stand apart.  If the filler
  belongs to no code, a code in the blotted text would stand clear of all fillers,
  hence in the text itself, and there it has been blotted out.

    • `Covers` — the places that are taken by what stands in a text,
    • `getElem?_blotted` — what each place of a blotted text holds,
    • `mem_locatedCodes_iff` — the codes found are those that stand in the text,
    • `blotCodes_codeFree` — no code is left, and none comes about,
    • `blotCodes_keeps_offsets` — the places of a blotted text.
-/
import TermMarkup.Proofs.Deletion
import TermMarkup.Proofs.MarkOffsets

namespace TermMarkup

/-! ## §1. Places. -/

/-- The place lies inside one of the parts. -/
def Covers {α : Type} (xs : List (Located α)) (i : Nat) : Prop :=
  ∃ x ∈ xs, x.start ≤ i ∧ i < x.stop

section Places

variable {α β : Type} {source : α → Text} {pick : α → Option β}

theorem covers_cons {x : Located α} {xs : List (Located α)} {i : Nat} :
    Covers (x :: xs) i ↔ (x.start ≤ i ∧ i < x.stop) ∨ Covers xs i := by
  simp [Covers]

/-- Parts stand behind the offset of the first one. -/
theorem le_start_of_mem_locate {xs : List α} {offset : Nat} {x : Located β}
    (h : x ∈ locate source pick offset xs) : offset ≤ x.start := by
  induction xs generalizing offset with
  | nil => simp [locate] at h
  | cons y ys ih =>
    cases hy : pick y with
    | none =>
      rw [locate_cons_none hy] at h
      have hrest := ih h
      omega
    | some z =>
      rw [locate_cons_some hy] at h
      rcases List.mem_cons.mp h with rfl | h
      · exact Nat.le_refl _
      · have hrest := ih h
        omega

theorem not_covers_before {xs : List α} {offset i : Nat} (h : i < offset) :
    ¬Covers (locate source pick offset xs) i := by
  intro hcovers
  obtain ⟨x, hx, hstart, -⟩ := hcovers
  have hle := le_start_of_mem_locate hx
  omega

/-- Behind the first part only later ones can lie. -/
theorem covers_behind {x : α} {xs : List α} {offset k : Nat} :
    Covers (locate source pick offset (x :: xs)) (offset + (source x).length + k)
      ↔ Covers (locate source pick (offset + (source x).length) xs)
          (offset + (source x).length + k) := by
  cases hx : pick x with
  | none => rw [locate_cons_none hx]
  | some y =>
    rw [locate_cons_some hx, covers_cons]
    refine or_iff_right ?_
    intro h
    have hstop : offset + (source x).length + k < offset + (source x).length := h.2
    omega

end Places

/-! ## §2. What blotting writes. -/

/-- What is written for a piece when codes are blotted out. -/
def Piece.blotted (filler : Text) : Piece → Text
  | .plain c => [c]
  | .mark m => Text.repeated m.source.length filler

theorem blotCodes_eq (filler t : Text) :
    Text.blotCodes filler t = (pieces Mark.code? t).flatMap (Piece.blotted filler) := by
  unfold Text.blotCodes
  refine congrArg (List.flatMap · (pieces Mark.code? t)) (funext fun p => ?_)
  cases p <;> rfl

section Pieces

variable {f : Char} {ps : List Piece}

/-- **A piece is blotted in its own length.** -/
theorem length_blotted (f : Char) (p : Piece) :
    (p.blotted [f]).length = p.source.length := by
  cases p with
  | plain c => rfl
  | mark m =>
    show (Text.repeated m.source.length [f]).length = m.source.length
    rw [Text.repeated_singleton, List.length_replicate]

theorem length_flatMap_blotted (f : Char) (ps : List Piece) :
    (ps.flatMap (Piece.blotted [f])).length = (ps.flatMap Piece.source).length := by
  induction ps with
  | nil => rfl
  | cons p ps ih =>
    rw [List.flatMap_cons, List.flatMap_cons, List.length_append, List.length_append,
      length_blotted, ih]

/-- A code is picked where it stands among the pieces. -/
theorem locate_code (offset : Nat) (params : Text) (ps : List Piece) :
    locate Piece.source Piece.code? offset (.mark (.code params) :: ps)
      = ⟨offset, offset + (Sgr.code params).length, Sgr.code params⟩
        :: locate Piece.source Piece.code? (offset + (Sgr.code params).length) ps :=
  rfl

/-- **What each place holds**: the filler inside a code, and else what it held before. -/
theorem getElem?_blotted (hcodes : ∀ m, Piece.mark m ∈ ps → ∃ p, m = .code p)
    (offset i : Nat) :
    (Covers (locate Piece.source Piece.code? offset ps) (offset + i) →
        (ps.flatMap (Piece.blotted [f]))[i]? = some f)
      ∧ (¬Covers (locate Piece.source Piece.code? offset ps) (offset + i) →
        (ps.flatMap (Piece.blotted [f]))[i]? = (ps.flatMap Piece.source)[i]?) := by
  -- on the pieces: a place lies in the first one, or as far behind it in the others
  induction ps generalizing offset i with
  | nil => simp [Covers, locate]
  | cons p ps ih =>
    have hrest := ih fun m hm => hcodes m (List.mem_cons_of_mem _ hm)
    rw [List.flatMap_cons, List.flatMap_cons, List.getElem?_append, List.getElem?_append,
      length_blotted]
    by_cases hi : i < p.source.length
    · rw [if_pos hi, if_pos hi]
      cases p with
      | plain c =>
        have hzero : i = 0 := by
          have hone : i < 1 := hi
          omega
        refine ⟨fun hcovers => ?_, fun _ => rfl⟩
        -- nothing is picked here, and the others stand behind this place
        rw [locate_cons_none rfl] at hcovers
        exact absurd hcovers (not_covers_before (by simp [Piece.source, hzero]))
      | mark m =>
        obtain ⟨params, rfl⟩ := hcodes m List.mem_cons_self
        have hfirst : Covers (locate Piece.source Piece.code? offset
            (.mark (.code params) :: ps)) (offset + i) := by
          rw [locate_code, covers_cons]
          exact .inl ⟨Nat.le_add_right _ _, Nat.add_lt_add_left hi offset⟩
        refine ⟨fun _ => ?_, fun hnot => absurd hfirst hnot⟩
        show (Text.repeated (Mark.code params).source.length [f])[i]? = some f
        rw [Text.repeated_singleton]
        exact List.getElem?_replicate_of_lt hi
    · obtain ⟨k, rfl⟩ : ∃ k, i = p.source.length + k := ⟨i - p.source.length, by omega⟩
      rw [if_neg hi, if_neg hi, Nat.add_sub_cancel_left, ← Nat.add_assoc, covers_behind]
      exact hrest (offset + p.source.length) k

end Pieces

/-! ## §3. Where codes stand. -/

/-- The code stands in the text at its offsets, where the text begins at `offset`. -/
def CodeStands (offset : Nat) (t : Text) (x : Located Text) : Prop :=
  ∃ before p after, p.all isParamChar = true ∧ t = before ++ (Sgr.code p ++ after)
    ∧ x = ⟨offset + before.length, offset + before.length + (Sgr.code p).length, Sgr.code p⟩

section Standing

variable {offset : Nat} {b : Bool} {x : Located Text}

theorem not_codeStands_nil : ¬CodeStands offset [] x := by
  intro h
  obtain ⟨before, p, after, -, ht, -⟩ := h
  simp [Sgr.code] at ht

/-- **Two codes stand apart**: one of them is not read inside the other. -/
theorem codes_apart {p q after before rest : Text} (hp : p.all isParamChar = true)
    (hq : q.all isParamChar = true) (h : Sgr.code p ++ rest = before ++ (Sgr.code q ++ after)) :
    (before = [] ∧ q = p) ∨ ∃ z, before = Sgr.code p ++ z ∧ rest = z ++ (Sgr.code q ++ after) := by
  rcases List.append_eq_append_iff.mp h with ⟨z, hbefore, hrest⟩ | ⟨z, hcode, hrest⟩
  · exact .inr ⟨z, hbefore, hrest⟩
  · cases before with
    | nil =>
      -- at one place one code only is read
      have hread : Mark.code? false (Sgr.code q ++ after) = some (.code p) := by
        rw [← List.nil_append (Sgr.code q ++ after), ← h]
        exact code?_code false hp rest
      rw [code?_code false hq] at hread
      exact .inl ⟨rfl, Mark.code.inj (Option.some.inj hread)⟩
    | cons c before =>
      obtain ⟨-, htail⟩ := List.cons.inj (show Sgr.escape :: '[' :: (p ++ ['m']) = _ from hcode)
      cases z with
      | nil =>
        rw [List.append_nil] at hcode
        exact .inr ⟨[], by rw [hcode, List.append_nil], by simpa using hrest.symm⟩
      | cons d z =>
        -- the second code would begin at an escape character inside the first
        obtain ⟨hd, -⟩ := List.cons.inj (show Sgr.escape :: ('[' :: (q ++ ['m']) ++ after) = _
          from hrest)
        refine absurd ?_ (escape_notMem_codeTail hp)
        rw [htail, ← hd]
        exact List.mem_append_right _ List.mem_cons_self

/-- **At a code** there stands this code, and all others stand behind it. -/
theorem codeStands_code_iff {p rest : Text} (hp : p.all isParamChar = true) :
    CodeStands offset (Sgr.code p ++ rest) x ↔
      x = ⟨offset, offset + (Sgr.code p).length, Sgr.code p⟩
        ∨ CodeStands (offset + (Sgr.code p).length) rest x := by
  constructor
  · intro h
    obtain ⟨before, q, after, hq, ht, hx⟩ := h
    rcases codes_apart hp hq ht with ⟨rfl, rfl⟩ | ⟨z, rfl, rfl⟩
    · exact .inl hx
    · rw [List.length_append, ← Nat.add_assoc] at hx
      exact .inr ⟨z, q, after, hq, rfl, hx⟩
  · intro h
    rcases h with rfl | ⟨before, q, after, hq, rfl, hx⟩
    · exact ⟨[], p, rest, hp, rfl, rfl⟩
    · refine ⟨Sgr.code p ++ before, q, after, hq, by rw [List.append_assoc], ?_⟩
      rw [hx, List.length_append, Nat.add_assoc offset]

/-- **Where no code is read**, all codes stand behind the first character. -/
theorem codeStands_plain_iff {c : Char} {cs : Text} (h : Mark.code? b (c :: cs) = none) :
    CodeStands offset (c :: cs) x ↔ CodeStands (offset + 1) cs x := by
  constructor
  · intro hstands
    obtain ⟨before, p, after, hp, ht, hx⟩ := hstands
    cases before with
    | nil =>
      rw [ht, List.nil_append, code?_code b hp] at h
      simp at h
    | cons d before =>
      obtain ⟨-, hcs⟩ := List.cons.inj ht
      rw [List.length_cons, Nat.add_comm before.length 1, ← Nat.add_assoc] at hx
      exact ⟨before, p, after, hp, hcs, hx⟩
  · intro hstands
    obtain ⟨before, p, after, hp, hcs, hx⟩ := hstands
    refine ⟨c :: before, p, after, hp, by rw [hcs]; rfl, ?_⟩
    rw [hx, List.length_cons, Nat.add_comm before.length 1, ← Nat.add_assoc]

/-- **A scan finds the codes that stand in the text**, and no others. -/
theorem mem_locate_scan_iff {t : Text} :
    x ∈ locate Piece.source Piece.code? offset (scan Mark.code? b t)
      ↔ CodeStands offset t x := by
  -- along the scan: what it does at a place is what standing there comes to
  induction b, t using scan.induct Mark.code? generalizing offset with
  | case1 b =>
    rw [scan]
    exact iff_of_false List.not_mem_nil not_codeStands_nil
  | case2 b c cs m hm ih =>
    obtain ⟨p, rest, hp, rfl, hsource⟩ := code?_eq_some hm
    rw [drop_source (m := .code p) hsource] at ih
    rw [hsource, scan_code?_code b hp, scan_code?_flag b false, codeStands_code_iff hp,
      locate_code, List.mem_cons, ← ih]
  | case3 b c cs hm ih =>
    rw [scan_plain hm, codeStands_plain_iff hm, ← ih]
    rfl

/-- A code that the text spells place by place stands in it. -/
theorem codeStands_of_getElem? {t p : Text} {n : Nat} (hp : p.all isParamChar = true)
    (h : ∀ k, k < (Sgr.code p).length → t[n + k]? = (Sgr.code p)[k]?) :
    CodeStands 0 t ⟨n, n + (Sgr.code p).length, Sgr.code p⟩ := by
  have hcode : (t.drop n).take (Sgr.code p).length = Sgr.code p := by
    apply List.ext_getElem?
    intro k
    by_cases hk : k < (Sgr.code p).length
    · rw [List.getElem?_take_of_lt hk, List.getElem?_drop, h k hk]
    · rw [List.getElem?_eq_none (by simp; omega), List.getElem?_eq_none (by omega)]
  -- the text reaches as far as the code, of which there is at least one character
  have hlength : (t.take n).length = n := by
    have hfirst : t[n]? = some Sgr.escape := h 0 (Nat.succ_pos _)
    obtain ⟨hlt, -⟩ := List.getElem?_eq_some_iff.mp hfirst
    rw [List.length_take]
    omega
  refine ⟨t.take n, p, t.drop (n + (Sgr.code p).length), hp, ?_, by rw [hlength, Nat.zero_add]⟩
  calc t = t.take n ++ t.drop n := (List.take_append_drop n t).symm
    _ = t.take n ++ (Sgr.code p ++ (t.drop n).drop (Sgr.code p).length) := by
      conv_lhs => rw [← List.take_append_drop (Sgr.code p).length (t.drop n), hcode]
    _ = t.take n ++ (Sgr.code p ++ t.drop (n + (Sgr.code p).length)) := by rw [List.drop_drop]

end Standing

namespace Text

/-- The codes of a text are those that stand in it. -/
theorem mem_locatedCodes_iff {t : Text} {x : Located Text} :
    x ∈ t.locatedCodes ↔ CodeStands 0 t x :=
  mem_locate_scan_iff

/-! ## §4. Blotted texts. -/

theorem length_blotCodes (f : Char) (t : Text) : (blotCodes [f] t).length = t.length := by
  rw [blotCodes_eq, length_flatMap_blotted]
  exact congrArg List.length (scan_source code?_finds false t)

theorem getElem?_blotCodes (f : Char) (t : Text) (i : Nat) :
    (Covers t.locatedCodes i → (blotCodes [f] t)[i]? = some f)
      ∧ (¬Covers t.locatedCodes i → (blotCodes [f] t)[i]? = t[i]?) := by
  have hcodes : ∀ m, Piece.mark m ∈ pieces Mark.code? t → ∃ p, m = .code p := by
    intro m hm
    obtain ⟨b, t', hread⟩ := mem_scan hm
    obtain ⟨p, -, -, hcode, -⟩ := code?_eq_some hread
    exact ⟨p, hcode⟩
  have hplaces := getElem?_blotted (f := f) hcodes 0 i
  have hsource : (pieces Mark.code? t).flatMap Piece.source = t := scan_source code?_finds false t
  rw [Nat.zero_add, hsource] at hplaces
  rw [blotCodes_eq]
  exact hplaces

/-- **No code is left, and none comes about**, if the filler is no character of a code. -/
theorem blotCodes_codeFree {f : Char} (hf : isParamChar f = false ∧ f ∉ [Sgr.escape, '[', 'm'])
    (t : Text) : CodeFree (blotCodes [f] t) := by
  intro before p after hp hblot
  have hplain : f ∉ Sgr.code p := notMem_code hp hf
  -- the places of the code hold no filler, so they are places of no code and hold what they held
  have hkept : ∀ k, k < (Sgr.code p).length → ¬Covers t.locatedCodes (before.length + k)
      ∧ t[before.length + k]? = (Sgr.code p)[k]? := by
    intro k hk
    have hhere : (blotCodes [f] t)[before.length + k]? = (Sgr.code p)[k]? := by
      rw [hblot, List.append_assoc, List.getElem?_append_right (Nat.le_add_right _ _),
        Nat.add_sub_cancel_left, List.getElem?_append_left hk]
    obtain ⟨hfilled, hsame⟩ := getElem?_blotCodes f t (before.length + k)
    have hclear : ¬Covers t.locatedCodes (before.length + k) := by
      intro hcovers
      rw [hfilled hcovers] at hhere
      exact hplain (List.mem_of_getElem? hhere.symm)
    exact ⟨hclear, (hsame hclear).symm.trans hhere⟩
  -- hence the code stands in the text itself, and covers its own first place
  have hstands : CodeStands 0 t
      ⟨before.length, before.length + (Sgr.code p).length, Sgr.code p⟩ :=
    codeStands_of_getElem? hp fun k hk => (hkept k hk).2
  have hpos : 0 < (Sgr.code p).length := Nat.succ_pos _
  refine (hkept 0 hpos).1 ⟨_, mem_locatedCodes_iff.mpr hstands, ?_, ?_⟩
  · exact Nat.le_add_right _ _
  · exact Nat.add_lt_add_left hpos _

/-- **Blotting codes out keeps all offsets.**  The codes of a text, with their offsets, are all that
stand in it; with a filler of one character the blotted text is as long as the text, holds the
filler at every place inside a code, and holds at every other place what the text holds there.  With
the default filler it has no codes. -/
theorem blotCodes_keeps_offsets (f : Char) (t : Text) :
    (t.locatedCodes.map Located.value = t.codes
        ∧ ∀ x, x ∈ t.locatedCodes ↔ CodeStands 0 t x)
      ∧ (blotCodes [f] t).length = t.length
      ∧ (∀ i, (∃ x ∈ t.locatedCodes, x.start ≤ i ∧ i < x.stop) → (blotCodes [f] t)[i]? = some f)
      ∧ (∀ i, (¬∃ x ∈ t.locatedCodes, x.start ≤ i ∧ i < x.stop) →
          (blotCodes [f] t)[i]? = t[i]?)
      ∧ (blotCodes defaultFiller t).hasCodes = false := by
  refine ⟨⟨locatedCodes_value t, fun x => mem_locatedCodes_iff⟩, length_blotCodes f t,
    fun i => (getElem?_blotCodes f t i).1, fun i => (getElem?_blotCodes f t i).2, ?_⟩
  exact hasCodes_eq_false_iff.mpr (blotCodes_codeFree (by decide) t)

/-- A filler that belongs to codes can complete one. -/
example : hasCodes (blotCodes ['m'] "\x1b[1\x1b[31m".toList) = true := by decide +kernel

end Text

end TermMarkup
