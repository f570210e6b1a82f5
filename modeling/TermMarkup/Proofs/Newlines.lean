/-
  TermMarkup.Proofs.Newlines
  ──────────────────────────
  NO MARK RUNS ACROSS A NEWLINE.  Neither the parameters of a code nor the body
  of a tag hold one, so what is recognised at some place does not depend on what
  follows the next newline.  A scan of two texts with a newline between them
  gives the pieces of both with a plain newline between; a text that has no
  unterminated tag gets none by what follows it on other lines.

    • `Recognizer.StaysOnLine` — what is recognised lies before the newline,
    • `scan_append` — the pieces of a text with more text that no mark reaches into,
    • `scan_newline` — the pieces of two texts with a newline between them,
    • `unterminatedFrom?_newline` — the unterminated tags of such texts,
    • `tokens_newline` — and their tokens.
-/
import TermMarkup.Proofs.Pieces

namespace TermMarkup

/-! ## §1. Marks. -/

/-- The characters of a class without the newline end where a newline stands. -/
theorem span_newline {p : Char → Bool} (hp : p '\n' = false) (t rest : Text) :
    (t ++ '\n' :: rest).takeWhile p = t.takeWhile p
      ∧ (t ++ '\n' :: rest).dropWhile p = t.dropWhile p ++ '\n' :: rest := by
  induction t with
  | nil => simp [hp]
  | cons c t ih =>
    rw [List.cons_append]
    cases hc : p c with
    | true => simp [hc, ih.1, ih.2]
    | false => simp [hc]

/-- The first character before a newline is that of the text, or the newline. -/
theorem head?_newline {t rest : Text} {c : Char} (hc : c ≠ '\n') :
    (t ++ '\n' :: rest).head? = some c ↔ t.head? = some c := by
  cases t with
  | nil => simpa using Ne.symm hc
  | cons d t => exact Iff.rfl

/-- What is recognised at some place does not depend on what follows the next newline. -/
def Recognizer.StaysOnLine (read : Recognizer) : Prop :=
  ∀ b t rest, read b (t ++ '\n' :: rest) = read b t

theorem code?_staysOnLine : Recognizer.StaysOnLine Mark.code? := by
  intro b t rest
  by_cases ht : ∃ after, t = '\x1b' :: '[' :: after
  · obtain ⟨after, rfl⟩ := ht
    obtain ⟨htake, hdrop⟩ := span_newline (p := isParamChar) (by decide) after rest
    -- only the head of what follows the parameters is looked at
    show (if ((after ++ '\n' :: rest).dropWhile isParamChar).head? = some 'm' then
        some (Mark.code ((after ++ '\n' :: rest).takeWhile isParamChar)) else none)
      = if (after.dropWhile isParamChar).head? = some 'm' then
        some (Mark.code (after.takeWhile isParamChar)) else none
    rw [htake, hdrop]
    exact if_congr (head?_newline (by decide)) rfl rfl
  · have hnone : ∀ u : Text, (¬∃ after, u = '\x1b' :: '[' :: after) → Mark.code? b u = none := by
      intro u hu
      unfold Mark.code?
      split
      · next after => exact absurd ⟨after, rfl⟩ hu
      · rfl
    rw [hnone t ht, hnone]
    rintro ⟨after, heq⟩
    cases t with
    | nil => exact absurd (List.cons.inj heq).1 (by decide)
    | cons c t =>
      obtain ⟨hc, htail⟩ := List.cons.inj heq
      cases t with
      | nil => exact absurd (List.cons.inj htail).1 (by decide)
      | cons d t => exact ht ⟨t, by rw [hc, (List.cons.inj htail).1]⟩

/-- The head with more text after it. -/
def TagHead.followedBy (more : Text) (h : TagHead) : TagHead := { h with after := h.after ++ more }

theorem ofBody?_newline (closes : Bool) (t rest : Text) :
    TagHead.ofBody? closes (t ++ '\n' :: rest)
      = (TagHead.ofBody? closes t).map (TagHead.followedBy ('\n' :: rest)) := by
  obtain ⟨htake, hdrop⟩ := span_newline (p := isTagChar) (by decide) t rest
  have hstart : (t ++ '\n' :: rest).head?.any isTagStart = t.head?.any isTagStart := by
    cases t with
    | nil => rfl
    | cons c t => rfl
  unfold TagHead.ofBody?
  rw [hstart, htake, hdrop]
  split <;> rfl

/-- **A tag head that begins before a newline ends before it.** -/
theorem read?_newline (b : Bool) (t rest : Text) :
    TagHead.read? b (t ++ '\n' :: rest)
      = (TagHead.read? b t).map (TagHead.followedBy ('\n' :: rest)) := by
  cases b with
  | true => rfl
  | false =>
    cases t with
    | nil => rfl
    | cons c t =>
      by_cases hc : c = '{'
      · subst hc
        cases t with
        | nil => rfl
        | cons d t =>
          by_cases hd : d = '/'
          · subst hd
            exact ofBody?_newline true t rest
          · rw [List.cons_append, List.cons_append, read?_open hd, read?_open hd,
              ← List.cons_append]
            exact ofBody?_newline false (d :: t) rest
      · rw [List.cons_append, read?_of_ne false hc, read?_of_ne false hc]
        rfl

theorem tag?_staysOnLine : Recognizer.StaysOnLine Mark.tag? := by
  intro b t rest
  unfold Mark.tag?
  rw [read?_newline]
  cases TagHead.read? b t with
  | none => rfl
  | some h => exact if_congr (head?_newline (by decide)) rfl rfl

theorem any?_staysOnLine : Recognizer.StaysOnLine Mark.any? := by
  intro b t rest
  unfold Mark.any?
  rw [code?_staysOnLine, tag?_staysOnLine]

/-! ## §2. Pieces. -/

/-- What is recognised in a text does not change when `back` follows it. -/
def Recognizer.EndsBefore (read : Recognizer) (back : Text) : Prop :=
  ∀ b t, read b (t ++ back) = read b t

/-- No mark is empty. -/
theorem Recognizer.Finds.nil_eq_none {read : Recognizer} (hread : read.Finds) (b : Bool) :
    read b [] = none := by
  cases hm : read b [] with
  | none => rfl
  | some m =>
    obtain ⟨after, hsource⟩ := hread b [] m hm
    exact absurd (List.append_eq_nil_iff.mp hsource.symm).1 (source_ne_nil m)

section

variable {read : Recognizer} (hread : read.Finds) {back : Text} (hback : read.EndsBefore back)
include hread hback

/-- A text that no mark reaches into begins with a plain character, so it does not matter whether it
stands behind a brace. -/
theorem scan_back_flag (b b' : Bool) : scan read b back = scan read b' back := by
  cases back with
  | nil => rw [scan, scan]
  | cons c cs =>
    have hnone : ∀ b, read b (c :: cs) = none := fun b =>
      (hback b []).trans (hread.nil_eq_none b)
    rw [scan_plain (hnone b), scan_plain (hnone b')]

/-- **A scan of a text that no mark of what stands before it reaches into** begins anew. -/
theorem scan_append (b : Bool) (t : Text) :
    scan read b (t ++ back) = scan read b t ++ scan read false back := by
  induction b, t using scan.induct read with
  | case1 b =>
    have hnil : scan read b [] = [] := by rw [scan]
    rw [hnil]
    exact scan_back_flag hread hback b false
  | case2 b c cs m hm ih =>
    have hboth := (hback b (c :: cs)).trans hm
    obtain ⟨after, hsource⟩ := hread b (c :: cs) m hm
    rw [drop_source hsource] at ih
    rw [hsource] at hm hboth ⊢
    rw [List.append_assoc] at hboth ⊢
    rw [scan_mark hm, scan_mark hboth, ih]
    rfl
  | case3 b c cs hm ih =>
    have hboth := (hback b (c :: cs)).trans hm
    rw [List.cons_append] at hboth ⊢
    rw [scan_plain hm, scan_plain hboth, ih]
    rfl

end

/-- **A scan crosses a newline as one plain character**, whatever stands before it. -/
theorem scan_newline {read : Recognizer} (hread : read.Finds) (hline : read.StaysOnLine) (b : Bool)
    (t rest : Text) :
    scan read b (t ++ '\n' :: rest) = scan read b t ++ .plain '\n' :: scan read false rest := by
  have hback : read.EndsBefore ('\n' :: rest) := fun b t => hline b t rest
  rw [scan_append hread hback, scan_plain ((hback false []).trans (hread.nil_eq_none false))]
  rfl

/-- What stands after a newline does not leave a tag before it unterminated. -/
theorem cutsOff_newline {after : Text} (h : Text.cutsOff after = false) (rest : Text) :
    Text.cutsOff (after ++ '\n' :: rest) = false := by
  cases after with
  | nil => exact nomatch h
  | cons c after =>
    unfold Text.cutsOff at h ⊢
    simp only [reduceCtorEq, decide_false, Bool.false_or, Bool.or_eq_false_iff,
      decide_eq_false_iff_not, List.head?_cons, List.cons_append, List.cons.injEq,
      List.append_eq_nil_iff, and_false] at h ⊢
    exact h.2

/-- **The unterminated tags of two texts with a newline between them** are those of the second, if
the first has none. -/
theorem unterminatedFrom?_newline {b : Bool} {t : Text}
    (h : Text.unterminatedFrom? b t = none) (rest : Text) :
    Text.unterminatedFrom? b (t ++ '\n' :: rest) = Text.unterminatedFrom? false rest := by
  induction t generalizing b with
  | nil =>
    rw [List.nil_append, Text.unterminatedFrom?, read?_of_ne b (by decide)]
    rfl
  | cons c t ih =>
    have hread := read?_newline b (c :: t) rest
    rw [List.cons_append] at hread ⊢
    unfold Text.unterminatedFrom? at h
    rw [Text.unterminatedFrom?, hread]
    cases hhead : TagHead.read? b (c :: t) with
    | none =>
      rw [hhead] at h
      exact ih h
    | some head =>
      rw [hhead] at h
      dsimp only [Option.map_some] at h ⊢
      split at h
      · exact nomatch h
      · next hcut =>
        have hcut : Text.cutsOff (head.after ++ '\n' :: rest) = false :=
          cutsOff_newline (by simpa using hcut) rest
        show (if Text.cutsOff (head.after ++ '\n' :: rest) then _ else _) = _
        rw [hcut]
        exact ih h

/-! ## §3. Tokens. -/

/-- The tokens are the literal text, or there is none of either. -/
inductive Token.Spell : List Token → Text → Prop
  | none : Spell [] []
  | literal (t : Text) : Spell [.literal t] t

variable {ps qs : List Piece} {ts us : List Token}

/-- A newline before tokens joins the literal text that they begin with. -/
theorem consPlain_newline (us : List Token) :
    ∃ spelled b back, Token.Spell spelled b ∧ us = spelled ++ back
      ∧ Token.consPlain '\n' us = .literal ('\n' :: b) :: back := by
  cases us with
  | nil => exact ⟨[], [], [], .none, rfl, rfl⟩
  | cons tok us =>
    cases tok with
    | literal t => exact ⟨_, t, us, .literal t, rfl, rfl⟩
    | _ => exact ⟨[], [], _, .none, rfl, rfl⟩

/-- **The tokens of pieces with a newline between them** are the tokens of both, with the newline in
the literal text that the first ends and the second begins with. -/
theorem ofPieces_newline (hps : Token.ofPieces ps = .ok ts) (hqs : Token.ofPieces qs = .ok us) :
    ∃ front spelled a spelled' b back, Token.Spell spelled a ∧ Token.Spell spelled' b
      ∧ ts = front ++ spelled ∧ us = spelled' ++ back
      ∧ Token.ofPieces (ps ++ .plain '\n' :: qs)
        = .ok (front ++ .literal (a ++ '\n' :: b) :: back) := by
  obtain ⟨spelled', b, back, hb, hus, hcons⟩ := consPlain_newline us
  induction ps generalizing ts with
  | nil =>
    obtain rfl := Except.ok.inj hps
    refine ⟨[], [], [], spelled', b, back, .none, hb, rfl, hus, ?_⟩
    exact bind_eq_ok.mpr ⟨us, hqs, congrArg Except.ok hcons⟩
  | cons p ps ih =>
    cases p with
    | plain c =>
      obtain ⟨rest, hrest, hts⟩ := bind_eq_ok.mp hps
      obtain rfl := Except.ok.inj hts
      obtain ⟨front, spelled, a, spelled', b, back, ha, hb, rfl, hus, hall⟩ := ih hrest
      have hjoined : ∀ joined,
          Token.consPlain c (front ++ .literal (a ++ '\n' :: b) :: back) = joined →
          Token.ofPieces ((.plain c :: ps) ++ .plain '\n' :: qs) = .ok joined :=
        fun joined h => bind_eq_ok.mpr ⟨_, hall, congrArg Except.ok h⟩
      cases front with
      | nil =>
        -- the character joins the literal text at the newline
        refine ⟨[], [.literal (c :: a)], c :: a, spelled', b, back, .literal _, hb, ?_, hus,
          hjoined _ rfl⟩
        cases ha <;> rfl
      | cons tok front =>
        have hfront : ∀ more, Token.consPlain c ((tok :: front) ++ more)
            = Token.consPlain c (tok :: front) ++ more := by
          intro more
          cases tok <;> rfl
        exact ⟨_, spelled, a, spelled', b, back, ha, hb, hfront _, hus, hjoined _ (hfront _)⟩
    | mark m =>
      obtain ⟨tok, htok, hts⟩ := bind_eq_ok.mp hps
      obtain ⟨rest, hrest, hts⟩ := bind_eq_ok.mp hts
      obtain rfl := Except.ok.inj hts
      obtain ⟨front, spelled, a, spelled', b, back, ha, hb, rfl, hus, hall⟩ := ih hrest
      exact ⟨tok :: front, spelled, a, spelled', b, back, ha, hb, rfl, hus,
        bind_eq_ok.mpr ⟨tok, htok, bind_eq_ok.mpr ⟨_, hall, rfl⟩⟩⟩

/-- **The tokens of two texts with a newline between them.** -/
theorem tokens_newline {t u : Text} (ht : t.tokens = .ok ts) (hu : u.tokens = .ok us) :
    ∃ front spelled a spelled' b back, Token.Spell spelled a ∧ Token.Spell spelled' b
      ∧ ts = front ++ spelled ∧ us = spelled' ++ back
      ∧ (t ++ '\n' :: u).tokens = .ok (front ++ .literal (a ++ '\n' :: b) :: back) := by
  obtain ⟨⟨⟩, hcheck, ht⟩ := bind_eq_ok.mp ht
  obtain ⟨⟨⟩, hcheck', hu⟩ := bind_eq_ok.mp hu
  obtain ⟨front, spelled, a, spelled', b, back, ha, hb, hts, hus, hall⟩ := ofPieces_newline ht hu
  refine ⟨front, spelled, a, spelled', b, back, ha, hb, hts, hus, bind_eq_ok.mpr ⟨(), ?_, ?_⟩⟩
  · have hnone : Text.unterminatedFrom? false t = none := by
      unfold Text.checkTags at hcheck
      split at hcheck
      · exact nomatch hcheck
      · next h => exact h
    unfold Text.checkTags at hcheck' ⊢
    rw [unterminatedFrom?_newline hnone]
    exact hcheck'
  · have hscan : pieces Mark.any? (t ++ '\n' :: u)
        = pieces Mark.any? t ++ .plain '\n' :: pieces Mark.any? u :=
      scan_newline any?_finds any?_staysOnLine false t u
    rw [hscan]
    exact hall

end TermMarkup
