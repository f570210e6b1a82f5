/-
  TermMarkup.Proofs.Nesting
  ─────────────────────────
  WELL-NESTED TAGS RESTORE THE STACK.  A closing tag that names the words of an
  opening one, in whatever order, removes what that tag has opened and nothing
  else: the entries of the tag are in groups that no other entry has, and if the
  tag names a word several times, each close finds the latest group that is left
  of it.  A silent role opens nothing, and its close finds nothing to remove.

    • `close_block` — a close removes the latest block of its word,
    • `closeAll_blocks` — closing all words of a tag removes all of its blocks,
    • `Token.Nested` — well-nested tokens,
    • `Token.Nested.restores` — they give the stack its entries back,
    • `nested_restores_stack` — and the terminal its styles.
-/
import TermMarkup.Proofs.Groups
import Mathlib.Data.List.Nodup

namespace TermMarkup

/-! ## §1. Closing one word. -/

/-- A name that no entry by markup has closes nothing. -/
theorem close_of_none {s : Stack} {name : Text}
    (h : ∀ e ∈ s.entries, e.origin = .markup → e.name ≠ name) : s.close name = ([], s) := by
  have hnone : s.groupToClose? name = none := by
    unfold Stack.groupToClose?
    rw [Option.map_eq_none_iff, List.find?_eq_none]
    intro e he hfound
    obtain ⟨horigin, hname⟩ : e.origin = .markup ∧ e.name = name := by simpa using hfound
    exact h e (List.mem_reverse.mp he) horigin hname
  unfold Stack.close
  rw [hnone]

section

variable {old : List Entry} {last : Int} {before after : List WordBlock} {b : WordBlock}

/-- The latest entry of a word is in its latest block. -/
theorem groupToClose?_block (hne : b.pairs ≠ []) (hlatest : ∀ b' ∈ after, b'.word ≠ b.word) :
    (Stack.mk (old ++ (before ++ b :: after).flatMap WordBlock.entries) last).groupToClose? b.word
      = some b.group := by
  have hafter : (after.flatMap WordBlock.entries).reverse.find?
      (fun e => e.origin = .markup ∧ e.name = b.word) = none := by
    rw [List.find?_eq_none]
    intro e he hfound
    obtain ⟨b', hb', he⟩ := List.mem_flatMap.mp (List.mem_reverse.mp he)
    have hname : e.name = b.word := by simpa using (show _ ∧ _ by simpa using hfound).2
    exact hlatest b' hb' ((mem_block_entries he).1.symm.trans hname)
  have hblock : ∃ e ∈ b.entries, b.entries.reverse.find?
      (fun e => e.origin = .markup ∧ e.name = b.word) = some e := by
    obtain ⟨p, ps, hpairs⟩ := List.exists_cons_of_ne_nil hne
    cases hfind : b.entries.reverse.find? (fun e => e.origin = .markup ∧ e.name = b.word) with
    | some e => exact ⟨e, List.mem_reverse.mp (List.mem_of_find?_eq_some hfind), rfl⟩
    | none =>
      -- every entry of the block is a match
      have hmem : (⟨b.word, p.opens, p.closes, .markup, b.group⟩ : Entry) ∈ b.entries := by
        unfold WordBlock.entries
        rw [hpairs]
        exact List.mem_cons_self
      exact absurd (List.find?_eq_none.mp hfind _ (List.mem_reverse.mpr hmem)) (by simp)
  obtain ⟨e, he, hfound⟩ := hblock
  unfold Stack.groupToClose?
  rw [List.flatMap_append, List.flatMap_cons, List.reverse_append, List.reverse_append,
    List.reverse_append, List.append_assoc, List.append_assoc, List.find?_append, hafter,
    Option.none_or, List.find?_append, hfound, Option.some_or]
  exact congrArg some (mem_block_entries he).2.2

/-- **A close removes the latest block of its word**, and nothing else. -/
theorem close_block (hne : b.pairs ≠ []) (hlatest : ∀ b' ∈ after, b'.word ≠ b.word)
    (hold : ∀ e ∈ old, e.group ≠ b.group) (hother : ∀ b' ∈ before ++ after, b'.group ≠ b.group) :
    ((Stack.mk (old ++ (before ++ b :: after).flatMap WordBlock.entries) last).close b.word).2
      = ⟨old ++ (before ++ after).flatMap WordBlock.entries, last⟩ := by
  have hstays : ∀ es : List Entry, (∀ e ∈ es, e.group ≠ b.group) →
      es.filter (fun e => !decide (e.name = b.word ∧ e.group = b.group)) = es :=
    fun es hes => List.filter_eq_self.mpr fun e he => by simp [hes e he]
  have hblocks : ∀ bs : List WordBlock, (∀ b' ∈ bs, b'.group ≠ b.group) →
      ∀ e ∈ bs.flatMap WordBlock.entries, e.group ≠ b.group := by
    intro bs hbs e he
    obtain ⟨b', hb', he⟩ := List.mem_flatMap.mp he
    rw [(mem_block_entries he).2.2]
    exact hbs b' hb'
  have hgoes : b.entries.filter (fun e => !decide (e.name = b.word ∧ e.group = b.group)) = [] :=
    List.filter_eq_nil_iff.mpr fun e he => by
      simp [(mem_block_entries he).1, (mem_block_entries he).2.2]
  rw [List.forall_mem_append] at hother
  rw [close_of_some (groupToClose?_block hne hlatest)]
  dsimp only
  rw [List.flatMap_append, List.flatMap_append, List.flatMap_cons, List.filter_append,
    List.filter_append, List.filter_append, hstays old hold, hgoes,
    hstays _ (hblocks before hother.1), hstays _ (hblocks after hother.2), List.nil_append]

end

/-! ## §2. Closing the words of a tag. -/

/-- A word of blocks has a latest block. -/
theorem exists_latest_block {blocks : List WordBlock} {word : Text}
    (h : word ∈ blocks.map WordBlock.word) :
    ∃ before b after, blocks = before ++ b :: after ∧ b.word = word
      ∧ ∀ b' ∈ after, b'.word ≠ word := by
  induction blocks with
  | nil => exact nomatch h
  | cons first blocks ih =>
    by_cases hrest : word ∈ blocks.map WordBlock.word
    · obtain ⟨before, b, after, rfl, hword, hlatest⟩ := ih hrest
      exact ⟨first :: before, b, after, rfl, hword, hlatest⟩
    · have hword := (List.mem_cons.mp h).resolve_right hrest
      refine ⟨[], first, blocks, rfl, hword.symm, fun b' hb' heq => hrest ?_⟩
      exact heq ▸ List.mem_map_of_mem hb'

/-- **Closing the words of a tag, in any order, removes its blocks** and leaves what stood before
them. -/
theorem closeAll_blocks {theme : Theme} {old : List Entry} {last : Int}
    (hnames : ∀ e ∈ old, e.origin = .markup → ¬Style.Silent theme e.name) {names : List Text}
    {blocks : List WordBlock} (hperm : names.Perm (blocks.map WordBlock.word))
    (hsilent : ∀ b ∈ blocks, b.pairs = [] ↔ Style.Silent theme b.word)
    (hold : ∀ b ∈ blocks, ∀ e ∈ old, e.group ≠ b.group)
    (hnodup : (blocks.map WordBlock.group).Nodup) :
    ((Stack.mk (old ++ blocks.flatMap WordBlock.entries) last).closeAll names).2
      = ⟨old, last⟩ := by
  -- on the names: each takes the latest block of its word away
  induction names generalizing blocks with
  | nil =>
    obtain rfl : blocks = [] := List.map_eq_nil_iff.mp hperm.nil_eq.symm
    show Stack.mk (old ++ []) last = _
    rw [List.append_nil]
  | cons name names ih =>
    obtain ⟨before, b, after, rfl, rfl, hlatest⟩ :=
      exists_latest_block (hperm.subset List.mem_cons_self)
    rw [List.map_append, List.map_cons] at hperm hnodup
    have hrest : names.Perm ((before ++ after).map WordBlock.word) := by
      rw [List.map_append]
      exact (hperm.trans List.perm_middle).cons_inv
    obtain ⟨hnew, hnodup⟩ := List.nodup_cons.mp (List.nodup_middle.mp hnodup)
    rw [← List.map_append] at hnew hnodup
    have hmem : ∀ b' ∈ before ++ after, b' ∈ before ++ b :: after := by
      intro b' hb'
      rcases List.mem_append.mp hb' with hb' | hb'
      · exact List.mem_append_left _ hb'
      · exact List.mem_append_right _ (List.mem_cons_of_mem _ hb')
    have hb : b ∈ before ++ b :: after := List.mem_append_right _ List.mem_cons_self
    have hclose : ((Stack.mk (old ++ (before ++ b :: after).flatMap WordBlock.entries) last).close
        b.word).2 = ⟨old ++ (before ++ after).flatMap WordBlock.entries, last⟩ := by
      by_cases hne : b.pairs = []
      · -- the word is silent, so no entry has its name
        have hword := (hsilent b hb).mp hne
        have hnone : b.entries = [] := by
          unfold WordBlock.entries
          rw [hne]
          rfl
        rw [close_of_none, List.flatMap_append, List.flatMap_append, List.flatMap_cons, hnone,
          List.nil_append]
        intro e he horigin heq
        rcases List.mem_append.mp he with he | he
        · exact hnames e he horigin (heq ▸ hword)
        · obtain ⟨b', hb', he⟩ := List.mem_flatMap.mp he
          have hempty : b'.pairs = [] := by
            rw [hsilent b' hb', ← (mem_block_entries he).1, heq]
            exact hword
          unfold WordBlock.entries at he
          rw [hempty] at he
          exact nomatch he
      · refine close_block hne hlatest (hold b hb) fun b' hb' heq => hnew ?_
        exact heq ▸ List.mem_map_of_mem hb'
    show ((Stack.close _ b.word).2.closeAll names).2 = _
    rw [hclose]
    exact ih hrest (fun b' hb' => hsilent b' (hmem b' hb')) (fun b' hb' => hold b' (hmem b' hb'))
      hnodup

/-! ## §3. Well-nested tokens. -/

/-- Literals and tags in which every opening tag resolves and has, behind well-nested tokens, a
closing tag with its words in some order. -/
inductive Token.Nested (theme : Theme) : List Token → Prop
  | nil : Nested theme []
  | literal (t : Text) {rest : List Token} : Nested theme rest → Nested theme (.literal t :: rest)
  | tag {source source' : Text} {words words' : List Text} {inner rest : List Token}
      {resolved : List (Text × List StylePair)} :
      Stack.resolveWords theme source words = .ok resolved → words'.Perm words →
      Nested theme inner → Nested theme rest →
      Nested theme (.tagOpen source words :: (inner ++ .tagClose source' words' :: rest))

/-- The style tokens among tokens. -/
def Token.styles (ts : List Token) : List Token := ts.filter fun tok => tok.IsStyle

variable {theme : Theme} {s : Stack} {ts : List Token}

theorem styles_tag (source source' : Text) (words words' : List Text) (inner rest : List Token) :
    Token.styles (.tagOpen source words :: (inner ++ .tagClose source' words' :: rest))
      = .tagOpen source words
        :: (Token.styles inner ++ .tagClose source' words' :: Token.styles rest) := by
  unfold Token.styles
  rw [List.filter_cons_of_pos rfl, List.filter_append, List.filter_cons_of_pos rfl]

theorem styles_isStyle (ts : List Token) : ∀ tok ∈ Token.styles ts, tok.IsStyle :=
  fun _ h => by simpa using (List.mem_filter.mp h).2

/-- **A tag and its close leave the entries as they were**, if what stands between them does. -/
theorem close_opened {source codes : Text} {words words' : List Text} {opened inside : Stack}
    (hs : s.Regular theme) (hopen : s.apply theme (.tagOpen source words) = .ok (codes, opened))
    (hinside : inside.entries = opened.entries) (hperm : words'.Perm words) (source' : Text) :
    ∃ codes' closed, inside.apply theme (.tagClose source' words') = .ok (codes', closed)
      ∧ closed.entries = s.entries := by
  obtain ⟨resolved, hresolved, rfl⟩ := openTag_eq_ok hopen
  refine ⟨_, _, rfl, ?_⟩
  have hwords : words'.Perm ((blocksAfter s.lastGroup resolved).map WordBlock.word) := by
    have hmap := congrArg (List.map Prod.fst) (blocksAfter_words s.lastGroup resolved)
    rw [List.map_map, (resolveWords_eq_ok hresolved).1] at hmap
    exact hperm.trans (List.Perm.of_eq hmap.symm)
  have hnames : ∀ e ∈ s.entries, e.origin = .markup → ¬Style.Silent theme e.name :=
    fun e he horigin => ((hs.entries e he).of_markup horigin).2.2
  -- the groups of the tag are beyond those of the entries before it
  have hold : ∀ b ∈ blocksAfter s.lastGroup resolved, ∀ e ∈ s.entries, e.group ≠ b.group := by
    intro b hb e he
    have hnew := (blocksAfter_group hb).1
    have hcounted := hs.counted
    have hgrouped := hs.entries e he
    unfold Entry.Grouped at hgrouped
    split at hgrouped <;> omega
  have hentries : inside = ⟨s.entries
      ++ (blocksAfter s.lastGroup resolved).flatMap WordBlock.entries, inside.lastGroup⟩ :=
    congrArg (Stack.mk · inside.lastGroup) hinside
  have hclosed : (Stack.closeAll ⟨s.entries
      ++ (blocksAfter s.lastGroup resolved).flatMap WordBlock.entries, inside.lastGroup⟩ words').2
        = ⟨s.entries, inside.lastGroup⟩ :=
    closeAll_blocks hnames hwords (fun b hb => block_silent hresolved hb) hold
      (blocksAfter_nodup _ _)
  rw [← hentries] at hclosed
  show (inside.closeAll words').2.entries = s.entries
  rw [hclosed]

/-- **Well-nested tokens give a stack its entries back.** -/
theorem Token.Nested.restores (hts : Token.Nested theme ts) (hs : s.Regular theme) :
    ∃ written s', s.feed theme (Token.styles ts) = (.ok written, s')
      ∧ s'.entries = s.entries := by
  induction hts generalizing s with
  | nil => exact ⟨[], s, rfl, rfl⟩
  | literal t _ ih => exact ih hs
  | @tag source source' words words' inner rest resolved hresolved hperm _ _ ihinner ihrest =>
    have hopen : ∃ codes opened, s.apply theme (.tagOpen source words) = .ok (codes, opened) :=
      ⟨_, _, bind_eq_ok.mpr ⟨resolved, hresolved, rfl⟩⟩
    obtain ⟨codes, opened, hopen⟩ := hopen
    have hopened := apply_regular hs hopen
    obtain ⟨written, inside, hinner, hentries⟩ := ihinner hopened
    have hinside : inside.Regular theme := by
      have h := feed_regular hopened (Token.styles inner)
      rw [hinner] at h
      exact h
    obtain ⟨codes', closed, hclose, hback⟩ :=
      close_opened hs hopen hentries hperm source'
    obtain ⟨written', s', hrest, hlast⟩ := ihrest (apply_regular hinside hclose)
    refine ⟨codes :: (written ++ codes' :: written'), s', ?_, hlast.trans hback⟩
    rw [styles_tag, feed_ok (by trivial) hopen, feed_append hinner,
      feed_ok (by trivial) hclose, hrest]
    rfl

/-- The style tokens of well-nested tokens are tags. -/
theorem Token.Nested.codeFormed (hts : Token.Nested theme ts) :
    ∀ tok ∈ Token.styles ts, tok.IsStyle ∧ tok.CodeFormed := by
  refine fun tok htok => ⟨styles_isStyle ts tok htok, ?_⟩
  induction hts with
  | nil => exact nomatch htok
  | literal t _ ih => exact ih htok
  | tag _ _ _ _ ihinner ihrest =>
    rw [styles_tag] at htok
    rcases List.mem_cons.mp htok with rfl | htok
    · trivial
    · rcases List.mem_append.mp htok with htok | htok
      · exact ihinner htok
      · rcases List.mem_cons.mp htok with rfl | htok
        · trivial
        · exact ihrest htok

/-! ## §4. From reachable stacks. -/

/-- **Well-nested tags restore the stack.**  On a stack that style tokens of texts have left, the
style tokens of well-nested tokens are applied without fault; then the stack has the entries that it
had before, in their order, and what was written in between leaves the styles of the terminal as
they were. -/
theorem nested_restores_stack {before : List Token}
    (hbefore : ∀ tok ∈ before, tok.IsStyle ∧ tok.FromText) {codes : List Text}
    (h : Stack.empty.feed theme before = (.ok codes, s)) (hts : Token.Nested theme ts) :
    ∃ written s', s.feed theme (Token.styles ts) = (.ok written, s')
      ∧ s'.entries = s.entries
      ∧ ∃ pen, Pen.blank.after codes.flatten = .ok pen ∧ pen.after written.flatten = .ok pen := by
  have hregular : s.Regular theme := by
    have hfeed := feed_regular (empty_regular theme) before
    rw [h] at hfeed
    exact hfeed
  obtain ⟨hs, f, hf, hpen⟩ :=
    feed_turns (fun tok htok => ⟨(hbefore tok htok).1, (hbefore tok htok).2.codeFormed⟩)
      empty_sound h
  obtain ⟨written, s', hfeed, hentries⟩ := hts.restores hregular
  obtain ⟨-, g, hg, hpen'⟩ := feed_turns hts.codeFormed hs hfeed
  -- before and after, the terminal shows what the same entries describe
  refine ⟨written, s', hfeed, hentries, Pen.ofEntries s.entries, ?_, ?_⟩
  · rw [hf.after, ← hpen]
    rfl
  · rw [hg.after, hpen', hentries]

/-- A tag with a word twice and a silent role, over a bold style and a raw code of one channel, with
a tag of the same word inside. -/
theorem nested_restores_stack_repeated :
    let theme := Theme.standard.set .info " ".toList
    let before : List Token :=
      [.tagOpen "{bold}".toList ["bold".toList],
       .codeOpen "\x1b[2m".toList "\x1b[22m".toList]
    let ts : List Token :=
      [.tagOpen "{bold info bold}".toList ["bold".toList, "info".toList, "bold".toList],
       .literal "a".toList, .tagOpen "{bold}".toList ["bold".toList], .literal "b".toList,
       .tagClose "{/bold}".toList ["bold".toList],
       .tagClose "{/info bold bold}".toList ["info".toList, "bold".toList, "bold".toList]]
    ∃ codes s, Stack.empty.feed theme before = (.ok codes, s)
      ∧ ∃ written s', s.feed theme (Token.styles ts) = (.ok written, s')
        ∧ s'.entries = s.entries
        ∧ ∃ pen, Pen.blank.after codes.flatten = .ok pen ∧ pen.after written.flatten = .ok pen := by
  intro theme before ts
  have hcut : Text.tokens "{bold}\x1b[2m".toList = .ok before := by decide +kernel
  have hstyle : ∀ tok ∈ before, tok.IsStyle := by decide
  have hfeed : Stack.empty.feed theme before
      = (.ok ["\x1b[1m".toList, "\x1b[2m".toList],
          ⟨[⟨"bold".toList, "\x1b[1m".toList, "\x1b[22m".toList, .markup, 1⟩,
            ⟨"dim".toList, "\x1b[2m".toList, "\x1b[22m".toList, .ansi, 0⟩], 1⟩) := by
    decide +kernel
  let bold : List StylePair := [⟨"\x1b[1m".toList, "\x1b[22m".toList⟩]
  have houter : Stack.resolveWords theme "{bold info bold}".toList
      ["bold".toList, "info".toList, "bold".toList]
        = .ok [("bold".toList, bold), ("info".toList, []), ("bold".toList, bold)] := by
    decide +kernel
  have hinner : Stack.resolveWords theme "{bold}".toList ["bold".toList]
      = .ok [("bold".toList, bold)] := by
    decide +kernel
  let inner : List Token :=
    [.tagOpen "{bold}".toList ["bold".toList], .literal "b".toList,
     .tagClose "{/bold}".toList ["bold".toList]]
  have hinner : Token.Nested theme inner :=
    @Token.Nested.tag theme _ _ _ _ [.literal "b".toList] [] _ hinner (List.Perm.refl _)
      (.literal _ .nil) .nil
  have hnested : Token.Nested theme ts :=
    @Token.Nested.tag theme _ _ _ _ (.literal "a".toList :: inner) [] _ houter (by decide)
      (.literal _ hinner) .nil
  exact ⟨_, _, hfeed, nested_restores_stack
    (fun tok htok => ⟨hstyle tok htok, _, before, hcut, htok⟩) hfeed hnested⟩

end TermMarkup
