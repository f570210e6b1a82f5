/-
  TermMarkup.Proofs.Paragraphs
  ────────────────────────────
  PARAGRAPHS ARE WRAPPED ONE BY ONE.  A newline ends the token, the word and the
  line that stand before it.  Where no style is open there, the layout goes on
  as at the start of a text, and only the groups of the stack tell that
  something came before.

    • `ofRuns_newline` — the units of runs with a newline in their text,
    • `unitsLaid_newline_plain` — a newline between units, if no style is open,
    • `ofTokens_newline` — the runs of tokens with a newline between them,
    • `wrap_paragraphs` — two paragraphs.
-/
import TermMarkup.Proofs.Fitting
import TermMarkup.Proofs.Newlines
import TermMarkup.Proofs.Regrouping

namespace TermMarkup

/-! ## §1. Units. -/

theorem cons_newline (c : Char) (cs ds : List Chunk) :
    Chunk.cons c (cs ++ .newline :: ds) = Chunk.cons c cs ++ .newline :: ds := by
  have hhead : cs = [] ∨ ∃ d rest, cs = d :: rest := by
    cases cs with
    | nil => exact .inl rfl
    | cons d rest => exact .inr ⟨d, rest, rfl⟩
  unfold Chunk.cons
  split
  · rfl
  · -- a newline joins neither blanks nor ink
    split <;> rcases hhead with rfl | ⟨d, rest, rfl⟩
    · rfl
    · cases d <;> rfl
    · rfl
    · cases d <;> rfl

/-- The chunks of a text with a newline in it. -/
theorem chunks_newline (a b : Text) :
    Text.chunks (a ++ '\n' :: b) = a.chunks ++ .newline :: b.chunks := by
  induction a with
  | nil => rfl
  | cons c a ih =>
    show Chunk.cons c (Text.chunks (a ++ '\n' :: b)) = Chunk.cons c (Text.chunks a) ++ _
    rw [ih, cons_newline]

namespace LayoutUnit

theorem ofChunks_newline (word : List Run) (cs ds : List Chunk) :
    ofChunks word (cs ++ .newline :: ds)
      = ((ofChunks word cs).1 ++ flush (ofChunks word cs).2 (.newline :: (ofChunks [] ds).1),
          (ofChunks [] ds).2) := by
  induction cs generalizing word with
  | nil => rfl
  | cons chunk cs ih =>
    cases chunk with
    | ink t => exact ih (word ++ [.text t])
    | newline =>
      show (flush word (.newline :: (ofChunks [] (cs ++ .newline :: ds)).1),
        (ofChunks [] (cs ++ .newline :: ds)).2)
        = (flush word (.newline :: (ofChunks [] cs).1) ++ _, _)
      rw [ih [], flush_append]
      rfl
    | blank t =>
      show (flush word (.blank t :: (ofChunks [] (cs ++ .newline :: ds)).1),
        (ofChunks [] (cs ++ .newline :: ds)).2)
        = (flush word (.blank t :: (ofChunks [] cs).1) ++ _, _)
      rw [ih [], flush_append]
      rfl

/-- **A newline ends the units before it**, and the units after it begin with no open word. -/
theorem ofRuns_newline (word rs : List Run) (a b : Text) (rs' : List Run) :
    ofRuns word (rs ++ .text (a ++ '\n' :: b) :: rs')
      = ofRuns word (rs ++ [.text a]) ++ .newline :: ofRuns [] (.text b :: rs') := by
  induction rs generalizing word with
  | nil =>
    show (ofChunks word (Text.chunks (a ++ '\n' :: b))).1
        ++ ofRuns (ofChunks word (Text.chunks (a ++ '\n' :: b))).2 rs'
      = (ofChunks word a.chunks).1 ++ flush (ofChunks word a.chunks).2 []
        ++ .newline :: ((ofChunks [] b.chunks).1 ++ ofRuns (ofChunks [] b.chunks).2 rs')
    rw [chunks_newline, ofChunks_newline, List.append_assoc, List.append_assoc, flush_append]
    dsimp only
    rw [flush_append]
    rfl
  | cons r rs ih =>
    cases r with
    | style codes active => exact ih (word ++ [.style codes active])
    | text t =>
      show (ofChunks word t.chunks).1
          ++ ofRuns (ofChunks word t.chunks).2 (rs ++ .text (a ++ '\n' :: b) :: rs')
        = (ofChunks word t.chunks).1
          ++ ofRuns (ofChunks word t.chunks).2 (rs ++ [.text a]) ++ .newline :: _
      rw [ih, List.append_assoc]

/-- Runs that make the same units after any open word do so after other runs. -/
theorem ofRuns_congr {rs rs' : List Run} (h : ∀ word, ofRuns word rs = ofRuns word rs')
    (word before : List Run) : ofRuns word (before ++ rs) = ofRuns word (before ++ rs') := by
  induction before generalizing word with
  | nil => exact h word
  | cons r before ih =>
    cases r with
    | style codes active => exact ih (word ++ [.style codes active])
    | text t => exact congrArg ((ofChunks word t.chunks).1 ++ ·) (ih _)

end LayoutUnit

/-! ## §2. Layouts. -/

/-- The styles that are open at the end of a layout are those after its runs. -/
theorem active_at_end (m : Measure) (rs : List Run) :
    (Step.flushPending m
        (Step.each (Step.ofUnit m) (LayoutUnit.ofRuns [] rs) Cursor.start).2).2.active
      = rs.foldl Run.after [] := by
  obtain ⟨ps, s, hplaced, hlays⟩ := placements_lays m rs
  set units := Step.each (Step.ofUnit m) (LayoutUnit.ofRuns [] rs) Cursor.start
  have hend : (units.1 ++ (Step.flushPending m units.2).1)
      ++ [.stop (Step.flushPending m units.2).2.active] = ps ++ [.stop s.active] := by
    rw [List.append_assoc]
    exact hplaced
  have hlast := List.append_inj_right' hend rfl
  rw [Placed.stop.inj (List.cons.inj hlast).1, hlays.active_eq, materialOf_items,
    foldl_after_runs]

/-- **A newline between units, if no style is open there**: the units after it are laid out as at
the start of a text. -/
theorem unitsLaid_newline_plain {m : Measure} {units : List LayoutUnit} {c : Cursor}
    (h : (Step.flushPending m (Step.each (Step.ofUnit m) units c).2).2.active = [])
    (later : List LayoutUnit) :
    unitsLaid m (units ++ .newline :: later) c
      = unitsLaid m units c ++ '\n' :: unitsLaid m later Cursor.start := by
  induction units generalizing c with
  | nil =>
    have hactive : (Step.flushPending m c).2.active = [] := h
    have hcursor : (Step.ofUnit m .newline c).2 = Cursor.start := by
      show (⟨0, (Step.flushPending m c).2.pending, (Step.flushPending m c).2.active⟩ : Cursor) = _
      rw [(Step.flushPending_laysAt c).2, hactive]
      rfl
    have hnewline : (Step.ofUnit m .newline c).1.flatMap Placed.written
        = unitsLaid m [] c ++ ['\n'] := by
      show ((Step.flushPending m c).1
          ++ [Placed.newline (Step.flushPending m c).2.active]).flatMap Placed.written
        = ((Step.flushPending m c).1
          ++ [Placed.stop (Step.flushPending m c).2.active]).flatMap Placed.written ++ ['\n']
      rw [hactive, List.flatMap_append, List.flatMap_append, List.append_assoc]
      rfl
    rw [List.nil_append, unitsLaid_cons, hcursor, hnewline, List.append_assoc]
    rfl
  | cons u units ih =>
    have hlater := ih (c := (Step.ofUnit m u c).2) h
    rw [List.cons_append, unitsLaid_cons, unitsLaid_cons, hlater, List.append_assoc]

/-- The layout depends on the units. -/
theorem layout_congr {rs rs' : List Run}
    (h : LayoutUnit.ofRuns [] rs = LayoutUnit.ofRuns [] rs') (m : Measure) :
    layout m rs = layout m rs' :=
  congrArg (fun units => unitsLaid m units Cursor.start) h

/-- **Runs with a newline in their text, and no style open there**, are laid out one paragraph after
the other. -/
theorem layout_newline {rs : List Run} (h : rs.foldl Run.after [] = []) (m : Measure) (a b : Text)
    (rs' : List Run) :
    layout m (rs ++ .text (a ++ '\n' :: b) :: rs')
      = layout m (rs ++ [.text a]) ++ '\n' :: layout m (.text b :: rs') := by
  have hactive : (rs ++ [Run.text a]).foldl Run.after [] = [] := by
    rw [List.foldl_append, h]
    rfl
  show unitsLaid m (LayoutUnit.ofRuns [] (rs ++ .text (a ++ '\n' :: b) :: rs')) Cursor.start = _
  rw [LayoutUnit.ofRuns_newline]
  exact unitsLaid_newline_plain ((active_at_end m _).trans hactive) _

/-! ## §3. Tokens. -/

variable {theme : Theme} {s : Stack} {ts us : List Token} {rs : List Run}

/-- Compiled tokens, without the literal text that they may end with. -/
theorem ofTokens_spelled {spelled : List Token} {a : Text} (hspelled : Token.Spell spelled a)
    (h : Run.ofTokens theme s (ts ++ spelled) = .ok rs) :
    ∃ front, Run.ofTokens theme s ts = .ok front
      ∧ (s.feed theme (ts ++ spelled)).2.entries = (s.feed theme ts).2.entries
      ∧ LayoutUnit.ofRuns [] rs = LayoutUnit.ofRuns [] (front ++ [.text a]) := by
  obtain ⟨front, last, hfront, hlast, rfl⟩ := ofTokens_append h
  have htext : (∀ active, last.foldl Run.after active = active)
      ∧ ∀ word, LayoutUnit.ofRuns word last = LayoutUnit.ofRuns word [.text a] := by
    cases hspelled with
    | none =>
      obtain rfl := Except.ok.inj hlast
      exact ⟨fun _ => rfl, fun _ => rfl⟩
    | literal a =>
      obtain rfl := Except.ok.inj hlast
      exact ⟨fun _ => rfl, fun _ => rfl⟩
  refine ⟨front, hfront, ?_, LayoutUnit.ofRuns_congr htext.2 [] front⟩
  rw [← ofTokens_active h, List.foldl_append, htext.1, ofTokens_active hfront]

/-- Compiled tokens, without the literal text that they may begin with. -/
theorem spelled_ofTokens {spelled : List Token} {b : Text} (hspelled : Token.Spell spelled b)
    (h : Run.ofTokens theme s (spelled ++ us) = .ok rs) :
    ∃ back, Run.ofTokens theme s us = .ok back
      ∧ LayoutUnit.ofRuns [] rs = LayoutUnit.ofRuns [] (.text b :: back) := by
  cases hspelled with
  | none => exact ⟨rs, h, rfl⟩
  | literal b =>
    obtain ⟨back, hback, h⟩ := bind_eq_ok.mp h
    obtain rfl := Except.ok.inj h
    exact ⟨back, hback, rfl⟩

/-- **Compiled tokens with a newline between them.**  If the first leave no style open, the others
compile as from the empty stack, with their groups moved on. -/
theorem ofTokens_newline {front back : List Run}
    (hfront : Run.ofTokens theme Stack.empty ts = .ok front)
    (hclosed : (Stack.empty.feed theme ts).2.entries = [])
    (hback : Run.ofTokens theme Stack.empty us = .ok back) (text : Text) :
    ∃ k, Run.ofTokens theme Stack.empty (ts ++ .literal text :: us)
      = .ok (front ++ .text text :: back.map (Run.recast (Entry.regroup k))) := by
  have hregular : (Stack.empty.feed theme ts).2.Regular theme :=
    feed_regular (empty_regular theme) ts
  have hregroup : Stack.empty.regroup (Stack.empty.feed theme ts).2.lastGroup
      = (Stack.empty.feed theme ts).2 := by
    show Stack.mk [] (0 + (Stack.empty.feed theme ts).2.lastGroup) = _
    rw [Int.zero_add, ← hclosed]
  have hlater := ofTokens_regroup hregular.counted (empty_regular theme) us
  rw [hregroup, hback] at hlater
  exact ⟨_, ofTokens_appended hfront (bind_eq_ok.mpr ⟨_, hlater, rfl⟩)⟩

/-! ## §4. Paragraphs. -/

/-- **Paragraphs are wrapped one by one.**  If two texts can be wrapped and the style tokens of the
first leave no style open, the text of both with a newline between is wrapped as each of them. -/
theorem wrap_paragraphs {t u first second : Text} (hts : t.tokens = .ok ts) {width : Int}
    {threshold? : Option Int} (hfirst : Text.wrap theme t width threshold? = .ok first)
    (hsecond : Text.wrap theme u width threshold? = .ok second)
    (hclosed : (Stack.empty.feed theme ts).2.entries = []) :
    Text.wrap theme (t ++ '\n' :: u) width threshold? = .ok (first ++ '\n' :: second) := by
  obtain ⟨us, hus⟩ : ∃ us, u.tokens = .ok us := by
    obtain ⟨_, hruns, -⟩ := bind_eq_ok.mp hsecond
    obtain ⟨us, hus, -⟩ := bind_eq_ok.mp hruns
    exact ⟨us, hus⟩
  obtain ⟨_, -, hcompiled, rfl⟩ := wrap_eq_ok hts hfirst
  obtain ⟨_, -, hcompiled', rfl⟩ := wrap_eq_ok hus hsecond
  -- the newline makes one literal of the last of `t` and the first of `u`
  obtain ⟨_, _, a, _, b, _, ha, hb, rfl, rfl, hboth⟩ := tokens_newline hts hus
  obtain ⟨front, hfront, hsame, hunits⟩ := ofTokens_spelled ha hcompiled
  obtain ⟨back, hback, hunits'⟩ := spelled_ofTokens hb hcompiled'
  rw [hsame] at hclosed
  obtain ⟨k, hall⟩ := ofTokens_newline hfront hclosed hback (a ++ '\n' :: b)
  have hruns : Text.runs theme (t ++ '\n' :: u) = .ok _ := bind_eq_ok.mpr ⟨_, hboth, hall⟩
  have hactive : front.foldl Run.after [] = [] := (ofTokens_active hfront).trans hclosed
  -- the groups of `u` are moved on, and the layout does not see it
  have hrecast : layout ⟨width, threshold?.getD width⟩
        (.text b :: back.map (Run.recast (Entry.regroup k)))
      = layout ⟨width, threshold?.getD width⟩ (.text b :: back) :=
    layout_recast (regroup_opens k) (regroup_closes k) _ (.text b :: back)
  refine bind_eq_ok.mpr ⟨_, hruns, congrArg Except.ok ?_⟩
  rw [layout_newline hactive, hrecast, layout_congr hunits, layout_congr hunits']

/-- Blanks on both sides of the newline; a tag and a raw code end before it, and of two nested tags
of one word after it the inner one is closed first. -/
theorem wrap_paragraphs_nested :
    let t := "{bold}ab c{/bold} \x1b[31md\x1b[0m ".toList
    let u := " {bold}e{bold}f g{/bold} h{/bold}".toList
    let first := "\x1b[1mab\x1b[22m\x1b[0m\n\x1b[1mc\x1b[22m \x1b[31md\x1b[0m".toList
    let second := " \x1b[1me\x1b[1mf\x1b[22m\x1b[22m\x1b[0m\n".toList
      ++ "\x1b[1m\x1b[1mg\x1b[22m\x1b[1m h\x1b[22m".toList
    Text.wrap Theme.standard t 3 none = .ok first
      ∧ Text.wrap Theme.standard u 3 none = .ok second
      ∧ Text.wrap Theme.standard (t ++ '\n' :: u) 3 none = .ok (first ++ '\n' :: second) := by
  intro t u first second
  let ts : List Token :=
    [.tagOpen "{bold}".toList ["bold".toList], .literal "ab c".toList,
     .tagClose "{/bold}".toList ["bold".toList], .literal " ".toList,
     .codeOpen "\x1b[31m".toList "\x1b[39m".toList, .literal "d".toList,
     .codeClose "\x1b[0m".toList, .literal " ".toList]
  have hts : Text.tokens t = .ok ts := by decide +kernel
  have hfirst : Text.wrap Theme.standard t 3 none = .ok first := by decide +kernel
  have hsecond : Text.wrap Theme.standard u 3 none = .ok second := by decide +kernel
  have hclosed : (Stack.empty.feed Theme.standard ts).2.entries = [] := by decide +kernel
  exact ⟨hfirst, hsecond, wrap_paragraphs hts hfirst hsecond hclosed⟩

end TermMarkup
