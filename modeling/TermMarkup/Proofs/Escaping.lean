/-
  TermMarkup.Proofs.Escaping
  ──────────────────────────
  ESCAPED TEXT HOLDS NO TAG.  The second brace of a pair stands behind the first
  one, and behind the first one stands no slash and nothing that a body could
  begin with; so no head of a tag begins in escaped text, whatever follows.  A
  scan goes through it character by character and comes out behind its last
  character, which is all that the text behind it gets to see.

  Where that last character is an opening brace, a tag at the start of what
  follows is read as plain text, as a tag must not stand behind a brace.  All
  else is read as it is by itself.

    • `Headless` — a text in which no head begins,
    • `Written`, `render_eq_ok_iff` — what is written for the pieces of a text,
    • `render_escapeBraces` — escaped text is rendered as it stands,
    • `render_behind_escaped` — markup behind escaped text is rendered as by
      itself, except for a tag at its start behind an opening brace.
-/
import TermMarkup.Proofs.Braces
import TermMarkup.Proofs.MarkOffsets
import TermMarkup.Proofs.RenderNeutral
import TermMarkup.Proofs.TagHeads
import TermMarkup.Proofs.TagRanges

namespace TermMarkup

namespace Text

/-! ## §1. Texts in which no tag begins. -/

/-- No head of a tag begins in the text, whatever stands behind it; the flag says whether an opening
brace stands before it. -/
def Headless (afterBrace : Bool) : Text → Prop
  | [] => True
  | c :: u => (∀ rest, TagHead.read? afterBrace (c :: (u ++ rest)) = none) ∧ Headless (c == '{') u

theorem Headless.append {b : Bool} {u v : Text} (hu : Headless b u)
    (hv : Headless (endsInBrace b u) v) : Headless b (u ++ v) := by
  induction u generalizing b with
  | nil => exact hv
  | cons c u ih =>
    refine ⟨fun rest => ?_, ih hu.2 hv⟩
    have hread := hu.1 (v ++ rest)
    rw [← List.append_assoc] at hread
    exact hread

theorem headless_of_no_brace {u : Text} (hu : '{' ∉ u) (b : Bool) : Headless b u := by
  induction u generalizing b with
  | nil => trivial
  | cons c u ih =>
    have hc : c ≠ '{' := fun h => hu (h ▸ List.mem_cons_self)
    exact ⟨fun _ => read?_of_ne b hc _, ih (fun h => hu (List.mem_cons_of_mem _ h)) _⟩

/-- Two opening braces begin no head: the first stands before a brace, the second behind one. -/
theorem headless_doubled (b : Bool) : Headless b ['{', '{'] := by
  refine ⟨fun rest => ?_, fun rest => rfl, trivial⟩
  cases b with
  | true => rfl
  | false => exact read?_open (by decide) _

theorem headless_escapedChar (b : Bool) (c : Char) : Headless b (escapedChar c) := by
  by_cases hopen : c = '{'
  · subst hopen
    exact headless_doubled b
  · refine headless_of_no_brace (fun h => hopen ?_) b
    exact (eq_of_mem_escapedChar h).symm

/-- **No head begins in escaped text.** -/
theorem headless_escapeBraces (b : Bool) (t : Text) : Headless b (escapeBraces t) := by
  induction t generalizing b with
  | nil => trivial
  | cons c t ih =>
    rw [escapeBraces_cons]
    exact (headless_escapedChar b c).append (ih _)

/-- Escaped text ends in a brace if the text does. -/
theorem endsInBrace_escapeBraces (b : Bool) (t : Text) :
    endsInBrace b (escapeBraces t) = endsInBrace b t := by
  have hchar : ∀ b c, endsInBrace b (escapedChar c) = (c == '{') := by
    intro b c
    unfold escapedChar
    split <;> rfl
  induction t generalizing b with
  | nil => rfl
  | cons c t ih =>
    rw [escapeBraces_cons, endsInBrace_append, hchar]
    exact ih _

/-- **Behind an opening brace no head begins in a tag.** -/
theorem headless_tag {closes : Bool} {body : Text} (h : (Mark.tag closes body).Formed) :
    Headless true (Mark.tag closes body).source := by
  obtain ⟨tail, hsource, htail⟩ := exists_tagTail h
  rw [hsource]
  exact ⟨fun _ => rfl, headless_of_no_brace htail _⟩

variable {b : Bool} {u : Text}

/-- The search for an unterminated tag goes through such a text. -/
theorem Headless.unterminated_append (hu : Headless b u) (rest : Text) :
    unterminatedFrom? b (u ++ rest) = unterminatedFrom? (endsInBrace b u) rest := by
  induction u generalizing b with
  | nil => rfl
  | cons c u ih =>
    rw [List.cons_append, unterminatedFrom?, hu.1 rest]
    exact ih hu.2

/-- **A scan for marks goes through such a text**, if no code begins in it either. -/
theorem Headless.scan_append (hu : Headless b u) (hescape : Sgr.escape ∉ u) (rest : Text) :
    scan Mark.any? b (u ++ rest)
      = u.map .plain ++ scan Mark.any? (endsInBrace b u) rest := by
  induction u generalizing b with
  | nil => rfl
  | cons c u ih =>
    have hc : c ≠ Sgr.escape := fun h => hescape (h ▸ List.mem_cons_self)
    have hnone : Mark.any? b (c :: (u ++ rest)) = none := by
      refine any?_eq_none_iff.mpr ⟨code?_of_ne b hc _, ?_⟩
      unfold Mark.tag?
      rw [hu.1 rest]
    rw [List.cons_append, scan_plain hnone, ih hu.2 fun h => hescape (List.mem_cons_of_mem _ h)]
    rfl

end Text

/-! ## §2. What pieces write. -/

section

variable {theme : Theme} {s : Stack} {ts : List Token} {rs : List Run} {ps : List Piece}
  {w : Text}

/-- The pieces compile from the stack on, and the text is what is written for them, with the end of
the styles that they leave open. -/
def Written (theme : Theme) (s : Stack) (ps : List Piece) (w : Text) : Prop :=
  ∃ ts rs, Token.ofPieces ps = .ok ts ∧ Run.ofTokens theme s ts = .ok rs
    ∧ w = Run.writtenFrom s.entries rs

/-- A plain character in front of tokens is written in front of them. -/
theorem ofTokens_consPlain (c : Char) (h : Run.ofTokens theme s ts = .ok rs) :
    ∃ rs', Run.ofTokens theme s (Token.consPlain c ts) = .ok rs'
      ∧ ∀ active, Run.writtenFrom active rs' = c :: Run.writtenFrom active rs := by
  unfold Token.consPlain
  split
  · next u ts =>
    obtain ⟨rest, hrest, h⟩ := bind_eq_ok.mp h
    obtain rfl := Except.ok.inj h
    exact ⟨.text (c :: u) :: rest, bind_eq_ok.mpr ⟨rest, hrest, rfl⟩, fun _ => rfl⟩
  · exact ⟨.text [c] :: rs, bind_eq_ok.mpr ⟨rs, h, rfl⟩, fun _ => rfl⟩

/-- **Plain characters in front of pieces are written in front of them.** -/
theorem Written.plain (h : Written theme s ps w) (u : Text) :
    Written theme s (u.map .plain ++ ps) (u ++ w) := by
  induction u with
  | nil => exact h
  | cons c u ih =>
    obtain ⟨ts, rs, hts, hrs, hw⟩ := ih
    obtain ⟨rs', hrs', hwritten⟩ := ofTokens_consPlain c hrs
    refine ⟨_, rs', bind_eq_ok.mpr ⟨ts, hts, rfl⟩, hrs', ?_⟩
    rw [hwritten, ← hw]
    rfl

/-- Whether a token can be applied does not depend on the stack. -/
theorem apply_anyStack {tok : Token} {r : Text × Stack} (h : s.apply theme tok = .ok r)
    (s' : Stack) : ∃ r', s'.apply theme tok = .ok r' := by
  have hcode : ∀ code : Text,
      (do return (code, ← s.applyCode code) : Except Fault (Text × Stack)) = .ok r →
      ∃ r', (do return (code, ← s'.applyCode code) : Except Fault (Text × Stack)) = .ok r' := by
    intro code h
    obtain ⟨next, hnext, -⟩ := bind_eq_ok.mp h
    obtain ⟨es, hes, -⟩ := bind_eq_ok.mp hnext
    exact ⟨_, bind_eq_ok.mpr ⟨_, bind_eq_ok.mpr ⟨es, hes, rfl⟩, rfl⟩⟩
  cases tok with
  | literal t => cases h
  | tagOpen source words =>
    obtain ⟨resolved, hresolved, -⟩ := bind_eq_ok.mp h
    exact ⟨_, bind_eq_ok.mpr ⟨resolved, hresolved, rfl⟩⟩
  | tagClose source words => exact ⟨_, rfl⟩
  | codeOpen code closes => exact hcode code h
  | codeClose code => exact hcode code h

/-- Nor does it whether tokens compile. -/
theorem ofTokens_anyStack (h : Run.ofTokens theme s ts = .ok rs) (s' : Stack) :
    ∃ rs', Run.ofTokens theme s' ts = .ok rs' := by
  induction ts generalizing s rs s' with
  | nil => exact ⟨[], rfl⟩
  | cons tok ts ih =>
    rcases ofTokens_cons h with
      ⟨u, rest, rfl, hrest, -⟩ | ⟨codes, next, rest, -, happly, hrest, -⟩
    · obtain ⟨rest', hrest'⟩ := ih hrest s'
      exact ⟨_, bind_eq_ok.mpr ⟨rest', hrest', rfl⟩⟩
    · obtain ⟨⟨codes', next'⟩, happly'⟩ := apply_anyStack happly s'
      obtain ⟨rest', hrest'⟩ := ih hrest next'
      exact ⟨_, ofTokens_style happly' hrest'⟩

/-- **What follows a mark can be written by itself.** -/
theorem Written.behind_mark {m : Mark} (h : Written theme s (.mark m :: ps) w) (s' : Stack) :
    ∃ rest, Written theme s' ps rest := by
  obtain ⟨ts, rs, hts, hrs, -⟩ := h
  obtain ⟨tok, htok, hts⟩ := bind_eq_ok.mp hts
  obtain ⟨ts, hpieces, hts⟩ := bind_eq_ok.mp hts
  obtain rfl := Except.ok.inj hts
  have hrs : Run.ofTokens theme s ([tok] ++ ts) = .ok rs := hrs
  obtain ⟨front, back, -, hback, -⟩ := ofTokens_append hrs
  obtain ⟨rs', hrs'⟩ := ofTokens_anyStack hback s'
  exact ⟨_, ts, rs', hpieces, hrs', rfl⟩

theorem checkTags_eq_ok {t : Text} :
    t.checkTags = .ok () ↔ Text.unterminatedFrom? false t = none := by
  unfold Text.checkTags
  cases Text.unterminatedFrom? false t with
  | none => exact ⟨fun _ => rfl, fun _ => rfl⟩
  | some source => constructor <;> intro h <;> cases h

/-- **A text is rendered as its pieces are written**, if it has no unterminated tag. -/
theorem render_eq_ok_iff {t rendered : Text} :
    t.render theme = .ok rendered ↔ Text.unterminatedFrom? false t = none
      ∧ Written theme Stack.empty (pieces Mark.any? t) rendered := by
  rw [← checkTags_eq_ok]
  constructor
  · intro h
    obtain ⟨ts, rs, hts, -, hcompiled, hrendered⟩ := render_eq_ok h
    obtain ⟨⟨⟩, hcheck, hpieces⟩ := bind_eq_ok.mp hts
    exact ⟨hcheck, ts, rs, hpieces, hcompiled, hrendered⟩
  · rintro ⟨hcheck, ts, rs, hpieces, hcompiled, rfl⟩
    have hts : t.tokens = .ok ts := bind_eq_ok.mpr ⟨(), hcheck, hpieces⟩
    exact bind_eq_ok.mpr ⟨rs, bind_eq_ok.mpr ⟨ts, hts, hcompiled⟩, rfl⟩

end

/-! ## §3. Escaped text by itself. -/

/-- The pieces of escaped text, and of what stands behind it. -/
theorem scan_escaped {p : Text} (hp : Sgr.escape ∉ p) (m : Text) :
    pieces Mark.any? (Text.escapeBraces p ++ m) = (Text.escapeBraces p).map .plain
      ++ scan Mark.any? (Text.endsInBrace false p) m := by
  rw [← Text.endsInBrace_escapeBraces]
  exact (Text.headless_escapeBraces false p).scan_append
    (fun h => hp (Text.mem_of_mem_escapeBraces h)) m

theorem unterminatedFrom?_escaped (p m : Text) :
    Text.unterminatedFrom? false (Text.escapeBraces p ++ m)
      = Text.unterminatedFrom? (Text.endsInBrace false p) m := by
  rw [← Text.endsInBrace_escapeBraces]
  exact (Text.headless_escapeBraces false p).unterminated_append m

/-- **Escaped text has no marks.** -/
theorem pieces_escapeBraces {t : Text} (ht : Sgr.escape ∉ t) :
    pieces Mark.any? (Text.escapeBraces t) = (Text.escapeBraces t).map .plain := by
  have h := scan_escaped ht []
  rwa [List.append_nil, scan, List.append_nil] at h

theorem checkTags_escapeBraces (t : Text) : (Text.escapeBraces t).checkTags = .ok () := by
  have h := unterminatedFrom?_escaped t []
  rw [List.append_nil] at h
  exact checkTags_eq_ok.mpr h

/-- **Escaped text is rendered as it stands**, without tags, and unescaping gives the text back. -/
theorem render_escapeBraces (theme : Theme) {t : Text} (ht : Sgr.escape ∉ t) :
    (Text.escapeBraces t).checkTags = .ok () ∧ (Text.escapeBraces t).tags = []
      ∧ ∃ rendered, (Text.escapeBraces t).render theme = .ok rendered
          ∧ Text.unescapeBraces rendered = t := by
  have hcheck := checkTags_escapeBraces t
  have hwritten : Written theme Stack.empty (pieces Mark.any? (Text.escapeBraces t))
      (Text.escapeBraces t) := by
    have hnil : Written theme Stack.empty [] [] := ⟨[], [], rfl, rfl, rfl⟩
    have h := hnil.plain (Text.escapeBraces t)
    rwa [List.append_nil, List.append_nil, ← pieces_escapeBraces ht] at h
  refine ⟨hcheck, ?_, Text.escapeBraces t, ?_, Text.unescapeBraces_escapeBraces t⟩
  · rw [tags_eq_tagsFrom, pieces_escapeBraces ht, Text.Unmarked.tagsFrom_plain]
  · exact render_eq_ok_iff.mpr ⟨checkTags_eq_ok.mp hcheck, hwritten⟩

/-- Runs of braces of several lengths, with slashes and the characters of tags between them. -/
theorem render_escapeBraces_runs :
    let t := "{bold}\x7b\x7b/x\x7d \x7b\x7b\x7b(1,2,3)\x7d\x7d\x7b/red bold\x7b".toList
    Sgr.escape ∉ t
      ∧ (Text.escapeBraces t).checkTags = .ok ()
      ∧ (Text.escapeBraces t).tags = []
      ∧ ∃ rendered, (Text.escapeBraces t).render Theme.standard = .ok rendered
          ∧ Text.unescapeBraces rendered = t := by
  intro t
  have ht : Sgr.escape ∉ t := by decide
  exact ⟨ht, render_escapeBraces Theme.standard ht⟩

/-! ## §4. Tags at the start of a text. -/

theorem any?_tag {closes : Bool} {body : Text} (h : (Mark.tag closes body).Formed) (rest : Text) :
    Mark.any? false ((Mark.tag closes body).source ++ rest) = some (.tag closes body) := by
  obtain ⟨tail, hsource, -⟩ := Text.exists_tagTail h
  have hcode : Mark.code? false ((Mark.tag closes body).source ++ rest) = none := by
    rw [hsource]
    exact code?_of_ne false (by decide) _
  unfold Mark.any?
  rw [hcode, tag?_tag h rest]
  rfl

/-- A tag in its form at the start of a text is the first one listed. -/
theorem tags_of_tag {closes : Bool} {body : Text} (h : (Mark.tag closes body).Formed)
    (rest : Text) :
    ((Mark.tag closes body).source ++ rest).tags
      = ⟨0, (Mark.tag closes body).source.length, closes, body⟩
        :: tagsFrom (Mark.tag closes body).source.length (scan Mark.tag? false rest) := by
  unfold Text.tags pieces
  rw [scan_mark (tag?_tag h rest), tagsFrom]
  simp only [Piece.source, Nat.zero_add]

/-- **A tag that is listed at offset zero stands at the start.** -/
theorem tag_at_start {m : Text} {tag : Tag} (htag : tag ∈ m.tags) (hstart : tag.start = 0) :
    (Mark.tag tag.closes tag.body).Formed ∧ m = tag.source ++ m.drop tag.stop := by
  obtain ⟨⟨before, after, rfl, -, hbefore⟩, hformed, hstop⟩ := Text.mem_tags_iff.mp htag
  obtain rfl : before = [] := List.length_eq_zero_iff.mp (by omega)
  refine ⟨hformed, ?_⟩
  rw [List.nil_append, hstop, hstart, Nat.zero_add, List.drop_left]

/-! ## §5. Markup behind escaped text. -/

section

variable {theme : Theme} {p m rendered : Text}

/-- Where no tag is read at the start of a text, a brace before it changes nothing. -/
theorem scan_any?_behind_brace (h : Mark.tag? false m = none) :
    scan Mark.any? true m = scan Mark.any? false m := by
  cases m with
  | nil => rw [scan, scan]
  | cons c m =>
    have hsame : Mark.any? true (c :: m) = Mark.any? false (c :: m) := by
      unfold Mark.any?
      rw [h, code?_flag true false]
      rfl
    rw [scan, scan, hsame]

/-- A brace before a text makes no tag of it unterminated. -/
theorem unterminatedFrom?_behind_brace {b : Bool} (h : Text.unterminatedFrom? false m = none) :
    Text.unterminatedFrom? b m = none := by
  cases m with
  | nil => rfl
  | cons c m =>
    cases b with
    | false => exact h
    | true =>
      refine Text.unterminatedFrom?_cons_eq_none.mpr ⟨fun head hread => ?_, ?_⟩
      · cases hread
      · exact (Text.unterminatedFrom?_cons_eq_none.mp h).2

/-- **Markup behind escaped text is rendered as by itself**, if no tag at its start comes to stand
behind an opening brace. -/
theorem render_behind_escaped_apart (hp : Sgr.escape ∉ p) (hm : m.render theme = .ok rendered)
    (h : p.getLast? ≠ some '{' ∨ Mark.tag? false m = none) :
    (Text.escapeBraces p ++ m).render theme = .ok (Text.escapeBraces p ++ rendered) := by
  obtain ⟨hnone, hwritten⟩ := render_eq_ok_iff.mp hm
  refine render_eq_ok_iff.mpr ⟨?_, ?_⟩
  · rw [unterminatedFrom?_escaped]
    exact unterminatedFrom?_behind_brace hnone
  · have hscan : scan Mark.any? (Text.endsInBrace false p) m = pieces Mark.any? m := by
      cases hends : Text.endsInBrace false p with
      | false => rfl
      | true =>
        refine scan_any?_behind_brace (h.resolve_left fun hlast => ?_)
        rw [Text.endsInBrace_eq_false_iff.mpr hlast] at hends
        cases hends
    rw [scan_escaped hp, hscan]
    exact hwritten.plain _

/-- **A tag behind an opening brace is rendered as it stands**, and what follows it as by itself. -/
theorem render_behind_escaped_tag {closes : Bool} {body rest : Text} (hp : Sgr.escape ∉ p)
    (hbrace : p.getLast? = some '{') (hformed : (Mark.tag closes body).Formed)
    (hm : ((Mark.tag closes body).source ++ rest).render theme = .ok rendered) :
    ∃ r, rest.render theme = .ok r
      ∧ (Text.escapeBraces p ++ ((Mark.tag closes body).source ++ rest)).render theme
          = .ok (Text.escapeBraces p ++ ((Mark.tag closes body).source ++ r)) := by
  obtain ⟨hnone, hwritten⟩ := render_eq_ok_iff.mp hm
  -- the scan comes to the tag behind a brace, and out of it behind another character
  have hends : Text.endsInBrace false p = true :=
    eq_true_of_ne_false fun hfalse => Text.endsInBrace_eq_false_iff.mp hfalse hbrace
  have hheadless := Text.headless_tag hformed
  have hout : Text.endsInBrace true (Mark.tag closes body).source = false :=
    Text.endsInBrace_append_singleton true _ '}'
  have hscan := hheadless.scan_append (escape_notMem_tag hformed.2) rest
  have hsearch := hheadless.unterminated_append rest
  rw [hout] at hscan hsearch
  unfold pieces at hwritten
  rw [scan_mark (any?_tag hformed rest)] at hwritten
  obtain ⟨r, hr⟩ := hwritten.behind_mark Stack.empty
  have hrest : Text.unterminatedFrom? false rest = none :=
    hsearch.symm.trans (unterminatedFrom?_behind_brace hnone)
  refine ⟨r, render_eq_ok_iff.mpr ⟨hrest, hr⟩, render_eq_ok_iff.mpr ⟨?_, ?_⟩⟩
  · rw [unterminatedFrom?_escaped, hends, hsearch, hrest]
  · rw [scan_escaped hp, hends, hscan]
    exact (hr.plain _).plain _

/-- A tag that is read writes no opening brace. -/
theorem render_tag_ne {closes : Bool} {body rest r : Text} (hformed : (Mark.tag closes body).Formed)
    (hm : ((Mark.tag closes body).source ++ rest).render theme = .ok rendered)
    (hr : rest.render theme = .ok r) : rendered ≠ (Mark.tag closes body).source ++ r := by
  rintro rfl
  have hdrop : dropMarks Mark.any? ((Mark.tag closes body).source ++ rest)
      = dropMarks Mark.any? rest := by
    unfold dropMarks pieces
    rw [scan_mark (any?_tag hformed rest), plainOf_mark]
  have hcount := (render_coded hm).count_brace
  rw [hdrop, ← (render_coded hr).count_brace, List.count_append] at hcount
  have hpos := count_brace_tag closes body
  omega

/-- **Markup behind escaped text is rendered as by itself exactly if no tag at its start stands
behind an opening brace**; such a tag is rendered as it stands, and what follows it as by
itself. -/
theorem render_behind_escaped (hp : Sgr.escape ∉ p) (hm : m.render theme = .ok rendered) :
    ∃ joined, (Text.escapeBraces p ++ m).render theme = .ok joined
      ∧ (joined = Text.escapeBraces p ++ rendered
          ↔ ¬(p.getLast? = some '{' ∧ ∃ tag ∈ m.tags, tag.start = 0))
      ∧ (p.getLast? = some '{' → ∀ tag ∈ m.tags, tag.start = 0 →
          ∃ rest, Text.render theme (m.drop tag.stop) = .ok rest
            ∧ joined = Text.escapeBraces p ++ (tag.source ++ rest)) := by
  have hbehind : p.getLast? = some '{' → ∀ tag ∈ m.tags, tag.start = 0 →
      ∃ rest, Text.render theme (m.drop tag.stop) = .ok rest ∧ rendered ≠ tag.source ++ rest
        ∧ (Text.escapeBraces p ++ m).render theme
          = .ok (Text.escapeBraces p ++ (tag.source ++ rest)) := by
    intro hbrace tag htag hstart
    obtain ⟨hformed, hsource⟩ := tag_at_start htag hstart
    have hm' := hm
    rw [hsource] at hm'
    obtain ⟨rest, hrest, hjoined⟩ := render_behind_escaped_tag hp hbrace hformed hm'
    refine ⟨rest, hrest, render_tag_ne hformed hm' hrest, ?_⟩
    rw [hsource]
    exact hjoined
  by_cases h : p.getLast? = some '{' ∧ ∃ tag ∈ m.tags, tag.start = 0
  · obtain ⟨hbrace, tag, htag, hstart⟩ := h
    obtain ⟨rest, -, hne, hjoined⟩ := hbehind hbrace tag htag hstart
    refine ⟨_, hjoined, iff_of_false (fun heq => ?_) (not_not_intro ⟨hbrace, tag, htag, hstart⟩),
      fun _ tag' htag' hstart' => ?_⟩
    · exact hne (List.append_cancel_left heq).symm
    · obtain ⟨rest', hrest', -, hjoined'⟩ := hbehind hbrace tag' htag' hstart'
      exact ⟨rest', hrest', Except.ok.inj (hjoined.symm.trans hjoined')⟩
  · have hapart : p.getLast? ≠ some '{' ∨ Mark.tag? false m = none := by
      refine (not_and_or.mp h).imp_right fun hno => ?_
      cases hread : Mark.tag? false m with
      | none => rfl
      | some mark =>
        obtain ⟨-, closes, body, rest, rfl, hformed, rfl⟩ := tag?_eq_some_iff.mp hread
        rw [tags_of_tag hformed] at hno
        exact absurd ⟨_, List.mem_cons_self, rfl⟩ hno
    exact ⟨_, render_behind_escaped_apart hp hm hapart, iff_of_true rfl h,
      fun hbrace tag htag hstart => absurd ⟨hbrace, tag, htag, hstart⟩ h⟩

end

/-- A tag that comes to stand behind a brace, and one behind it that is read. -/
theorem render_behind_escaped_twice :
    Sgr.escape ∉ "a\x7b".toList
      ∧ Text.render Theme.standard "{bold}b{red}c".toList
          = .ok "\x1b[1mb\x1b[31mc\x1b[22m\x1b[39m\x1b[0m".toList
      ∧ ∃ joined, Text.render Theme.standard
            (Text.escapeBraces "a\x7b".toList ++ "{bold}b{red}c".toList) = .ok joined
          ∧ joined ≠ Text.escapeBraces "a\x7b".toList
              ++ "\x1b[1mb\x1b[31mc\x1b[22m\x1b[39m\x1b[0m".toList := by
  have hp : Sgr.escape ∉ "a\x7b".toList := by decide
  have hm : Text.render Theme.standard "{bold}b{red}c".toList
      = .ok "\x1b[1mb\x1b[31mc\x1b[22m\x1b[39m\x1b[0m".toList := by
    with_unfolding_all decide
  have hbrace : "a\x7b".toList.getLast? = some '{' ∧
      ∃ tag ∈ Text.tags "{bold}b{red}c".toList, tag.start = 0 := by
    with_unfolding_all decide
  obtain ⟨joined, hjoined, hiff, -⟩ := render_behind_escaped hp hm
  exact ⟨hp, hm, joined, hjoined, fun heq => hiff.mp heq hbrace⟩

/-- **A tag behind an escaped brace is not read**: what follows escaped text is not rendered as by
itself. -/
theorem escaped_brace_hides_tag :
    Sgr.escape ∉ "\x7b".toList
      ∧ Text.render Theme.standard "{bold}x".toList = .ok "\x1b[1mx\x1b[22m\x1b[0m".toList
      ∧ Text.render Theme.standard (Text.escapeBraces "\x7b".toList ++ "{bold}x".toList)
          ≠ .ok (Text.escapeBraces "\x7b".toList ++ "\x1b[1mx\x1b[22m\x1b[0m".toList) := by
  with_unfolding_all decide

end TermMarkup
