/-
  TermMarkup.Proofs.Groups
  ────────────────────────
  GROUPS OF OPEN STYLES.  Each word of an opening tag gets the next group, and
  all of its entries are in it; what SGR codes open is in group zero.  No group
  is given out twice, so an entry by markup is told by its group, whatever was
  closed in between.

  A role whose style has no word is SILENT: a tag may open it, but there is no
  entry of its name, now or later.

    • `foldl_openWord` — the entries of an opening tag, as blocks of words,
    • `apply_cases` — what each kind of token does to a stack,
    • `apply_entries` — all that one token can do to the entries of a stack,
    • `Stack.Regular` — what every stack keeps,
    • `apply_regular`, `feed_regular` — one token, and a run of tokens.
-/
import TermMarkup.Proofs.StackPen

namespace TermMarkup

/-! ## §1. Resolved words. -/

/-- The word is a role whose style has no words. -/
def Style.Silent (theme : Theme) (word : Text) : Prop :=
  ∃ style, theme.styleFor? word = some style ∧ Text.words style = []

/-- **A word resolves to no pairs only if it is silent.** -/
theorem resolve_eq_nil {theme : Theme} {tag word : Text} {pairs : List StylePair}
    (h : Style.resolve theme tag word = .ok pairs) : pairs = [] ↔ Style.Silent theme word := by
  unfold Style.resolve at h
  dsimp only at h
  cases hrole : theme.styleFor? word with
  | some style =>
    rw [hrole] at h
    rw [mapM_eq_ok_nil h]
    constructor
    · exact fun hnil => ⟨style, hrole, hnil⟩
    · rintro ⟨style', hstyle', hnil⟩
      obtain rfl := Option.some.inj (hrole.symm.trans hstyle')
      exact hnil
  | none =>
    rw [hrole] at h
    obtain ⟨pair, -, h⟩ := bind_eq_ok.mp h
    obtain rfl := Except.ok.inj h
    refine iff_of_false (List.cons_ne_nil _ _) ?_
    rintro ⟨style, hstyle, -⟩
    exact nomatch hrole.symm.trans hstyle

/-- The words of a tag are resolved one by one. -/
theorem resolveWords_eq_ok {theme : Theme} {tag : Text} {words : List Text}
    {resolved : List (Text × List StylePair)}
    (h : Stack.resolveWords theme tag words = .ok resolved) :
    resolved.map Prod.fst = words
      ∧ ∀ w ∈ resolved, Style.resolve theme tag w.1 = .ok w.2 := by
  unfold Stack.resolveWords at h
  induction words generalizing resolved with
  | nil =>
    obtain rfl := mapM_nil_eq_ok.mp h
    exact ⟨rfl, fun w hw => nomatch hw⟩
  | cons word words ih =>
    obtain ⟨first, rest, hfirst, hrest, rfl⟩ := mapM_cons_eq_ok.mp h
    obtain ⟨pairs, hpairs, hfirst⟩ := bind_eq_ok.mp hfirst
    obtain rfl := Except.ok.inj hfirst
    obtain ⟨hwords, hresolve⟩ := ih hrest
    refine ⟨congrArg (word :: ·) hwords, fun w hw => ?_⟩
    rcases List.mem_cons.mp hw with rfl | hw
    · exact hpairs
    · exact hresolve w hw

/-! ## §2. Blocks. -/

/-- What one word of a tag opens. -/
structure WordBlock where
  word : Text
  group : Int
  pairs : List StylePair

/-- The entries of a block. -/
def WordBlock.entries (b : WordBlock) : List Entry :=
  b.pairs.map fun p => ⟨b.word, p.opens, p.closes, .markup, b.group⟩

/-- The blocks of resolved words, by the groups after the last one. -/
def blocksAfter (last : Int) : List (Text × List StylePair) → List WordBlock
  | [] => []
  | (word, pairs) :: rest => ⟨word, last + 1, pairs⟩ :: blocksAfter (last + 1) rest

theorem mem_block_entries {b : WordBlock} {e : Entry} (h : e ∈ b.entries) :
    e.name = b.word ∧ e.origin = .markup ∧ e.group = b.group := by
  obtain ⟨p, -, rfl⟩ := List.mem_map.mp h
  exact ⟨rfl, rfl, rfl⟩

/-- **Opening words adds their blocks**, and gives out one group for each. -/
theorem foldl_openWord_blocks (resolved : List (Text × List StylePair)) (s : Stack) :
    resolved.foldl (fun s (word, pairs) => s.openWord word pairs) s
      = ⟨s.entries ++ (blocksAfter s.lastGroup resolved).flatMap WordBlock.entries,
          s.lastGroup + resolved.length⟩ := by
  induction resolved generalizing s with
  | nil =>
    show s = ⟨s.entries ++ [], s.lastGroup + 0⟩
    rw [List.append_nil, Int.add_zero]
  | cons w resolved ih =>
    have hcount : s.lastGroup + 1 + (resolved.length : Int)
        = s.lastGroup + ((w :: resolved).length : Int) := by
      rw [List.length_cons]
      push_cast
      omega
    rw [List.foldl_cons, ih, ← hcount]
    show (⟨(s.entries ++ _) ++ _, _⟩ : Stack) = ⟨s.entries ++ (_ ++ _), _⟩
    rw [List.append_assoc]
    rfl

theorem blocksAfter_words (last : Int) (resolved : List (Text × List StylePair)) :
    (blocksAfter last resolved).map (fun b => (b.word, b.pairs)) = resolved := by
  induction resolved generalizing last with
  | nil => rfl
  | cons w resolved ih => exact congrArg (w :: ·) (ih _)

/-- The groups of blocks are new. -/
theorem blocksAfter_group {last : Int} {resolved : List (Text × List StylePair)} {b : WordBlock}
    (hb : b ∈ blocksAfter last resolved) : last < b.group ∧ b.group ≤ last + resolved.length := by
  induction resolved generalizing last with
  | nil => exact nomatch hb
  | cons w resolved ih =>
    rw [List.length_cons]
    rcases List.mem_cons.mp hb with rfl | hb
    · constructor
      · exact Int.lt_succ last
      · show last + 1 ≤ last + _
        omega
    · have h := ih hb
      omega

/-- Each block has a later group than the one before it. -/
theorem blocksAfter_sorted (last : Int) (resolved : List (Text × List StylePair)) :
    (blocksAfter last resolved).Pairwise fun b b' => b.group < b'.group := by
  induction resolved generalizing last with
  | nil => exact List.Pairwise.nil
  | cons w resolved ih =>
    refine List.pairwise_cons.mpr ⟨fun b hb => ?_, ih _⟩
    show last + 1 < b.group
    exact (blocksAfter_group hb).1

/-- No two blocks have one group. -/
theorem blocksAfter_nodup (last : Int) (resolved : List (Text × List StylePair)) :
    ((blocksAfter last resolved).map WordBlock.group).Nodup :=
  List.pairwise_map.mpr ((blocksAfter_sorted last resolved).imp fun h => Int.ne_of_lt h)

variable {theme : Theme} {s s' : Stack}

/-- **What an opening tag opens.** -/
theorem openTag_eq_ok {tag codes : Text} {words : List Text}
    (h : s.openTag theme tag words = .ok (codes, s')) :
    ∃ resolved, Stack.resolveWords theme tag words = .ok resolved
      ∧ s' = ⟨s.entries ++ (blocksAfter s.lastGroup resolved).flatMap WordBlock.entries,
          s.lastGroup + resolved.length⟩ := by
  obtain ⟨resolved, hresolved, h⟩ := bind_eq_ok.mp h
  obtain ⟨-, rfl⟩ := Prod.mk.inj (Except.ok.inj h)
  exact ⟨resolved, hresolved, foldl_openWord_blocks resolved s⟩

/-- A block of a tag is empty only if its word is silent. -/
theorem block_silent {tag : Text} {words : List Text} {resolved : List (Text × List StylePair)}
    (h : Stack.resolveWords theme tag words = .ok resolved) {last : Int} {b : WordBlock}
    (hb : b ∈ blocksAfter last resolved) : b.pairs = [] ↔ Style.Silent theme b.word := by
  have hmem : (b.word, b.pairs) ∈ resolved := by
    rw [← blocksAfter_words last resolved]
    exact List.mem_map_of_mem hb
  exact resolve_eq_nil ((resolveWords_eq_ok h).2 _ hmem)

/-! ## §3. What a token can do. -/

/-- An entry that was opened while the groups between `low` and `high` were given out. -/
def Entry.Grouped (theme : Theme) (low high : Int) (e : Entry) : Prop :=
  match e.origin with
  | .ansi => e.group = 0
  | .markup => low < e.group ∧ e.group ≤ high ∧ ¬Style.Silent theme e.name

theorem Entry.Grouped.mono {low high low' high' : Int} {e : Entry} (h : e.Grouped theme low high)
    (hlow : low' ≤ low) (hhigh : high ≤ high') : e.Grouped theme low' high' := by
  unfold Grouped at h ⊢
  split at h
  · exact h
  · exact ⟨by omega, by omega, h.2.2⟩

section

variable {low high : Int} {e : Entry} (h : e.Grouped theme low high)
include h

/-- An entry by SGR is in group zero. -/
theorem Entry.Grouped.of_ansi (horigin : e.origin = .ansi) : e.group = 0 := by
  unfold Grouped at h
  rwa [horigin] at h

/-- An entry by markup is in a group that was given out, and its name is not silent. -/
theorem Entry.Grouped.of_markup (horigin : e.origin = .markup) :
    low < e.group ∧ e.group ≤ high ∧ ¬Style.Silent theme e.name := by
  unfold Grouped at h
  rwa [horigin] at h

end

/-- A close of a name that is open, by the group that it removes. -/
theorem close_of_some {name : Text} {group : Int} (h : s.groupToClose? name = some group) :
    s.close name = (s.entries.filter fun e => e.name = name ∧ e.group = group,
      ⟨s.entries.filter fun e => !decide (e.name = name ∧ e.group = group), s.lastGroup⟩) := by
  unfold Stack.close
  rw [h]

theorem closeAll_lastGroup (names : List Text) (s : Stack) :
    (s.closeAll names).2.lastGroup = s.lastGroup := by
  induction names generalizing s with
  | nil => rfl
  | cons name names ih =>
    show ((s.close name).2.closeAll names).2.lastGroup = s.lastGroup
    rw [ih]
    unfold Stack.close
    split <;> rfl

/-- An effect gives out no group, and opens in group zero. -/
theorem applyEffect_entries (s : Stack) (eff : Effect) :
    (s.applyEffect eff).lastGroup = s.lastGroup
      ∧ ∀ e ∈ (s.applyEffect eff).entries, e ∈ s.entries ∨ (e.origin = .ansi ∧ e.group = 0) := by
  cases eff with
  | reset => exact ⟨rfl, fun e he => nomatch he⟩
  | switchOff ch => exact ⟨rfl, fun e he => .inl (List.mem_of_mem_filter he)⟩
  | switchOn d params =>
    refine ⟨rfl, fun e he => ?_⟩
    rcases List.mem_append.mp he with he | he
    · exact .inl (List.mem_of_mem_filter he)
    · obtain rfl := List.mem_singleton.mp he
      exact .inr ⟨rfl, rfl⟩

theorem foldl_applyEffect_entries (es : List Effect) (s : Stack) :
    (es.foldl Stack.applyEffect s).lastGroup = s.lastGroup
      ∧ ∀ e ∈ (es.foldl Stack.applyEffect s).entries,
        e ∈ s.entries ∨ (e.origin = .ansi ∧ e.group = 0) := by
  induction es generalizing s with
  | nil => exact ⟨rfl, fun e he => .inl he⟩
  | cons eff es ih =>
    obtain ⟨hlast, hfirst⟩ := applyEffect_entries s eff
    obtain ⟨hlast', hrest⟩ := ih (s.applyEffect eff)
    refine ⟨hlast'.trans hlast, fun e he => ?_⟩
    rcases hrest e he with he | hnew
    · exact hfirst e he
    · exact .inr hnew

/-- **What a token does to a stack**: an opening tag that resolves pushes the blocks of its words, a
closing tag keeps some of the entries, and a code lets its effects act. -/
theorem apply_cases {tok : Token} {codes : Text} (h : s.apply theme tok = .ok (codes, s')) :
    (∃ source words resolved, tok = .tagOpen source words
        ∧ Stack.resolveWords theme source words = .ok resolved
        ∧ s' = ⟨s.entries ++ (blocksAfter s.lastGroup resolved).flatMap WordBlock.entries,
            s.lastGroup + resolved.length⟩)
      ∨ (∃ source words keep, tok = .tagClose source words
        ∧ s' = ⟨s.entries.filter keep, s.lastGroup⟩)
      ∨ ∃ es, Effect.ofCode tok.source = .ok es ∧ s' = es.foldl Stack.applyEffect s := by
  cases tok with
  | literal t => exact nomatch h
  | tagOpen source words =>
    obtain ⟨resolved, hresolved, rfl⟩ := openTag_eq_ok h
    exact .inl ⟨source, words, resolved, rfl, hresolved, rfl⟩
  | tagClose source words =>
    obtain ⟨-, rfl⟩ := Prod.mk.inj (Except.ok.inj h)
    obtain ⟨keep, hkept, -⟩ := closeAll_filter words s
    have hafter : (s.closeTag words).2 = ⟨s.entries.filter keep, s.lastGroup⟩ :=
      congrArg₂ Stack.mk hkept (closeAll_lastGroup words s)
    exact .inr (.inl ⟨source, words, keep, rfl, hafter⟩)
  | codeOpen code closes =>
    obtain ⟨-, es, hes, rfl⟩ := codeToken_eq_ok h
    exact .inr (.inr ⟨es, hes, rfl⟩)
  | codeClose code =>
    obtain ⟨-, es, hes, rfl⟩ := codeToken_eq_ok h
    exact .inr (.inr ⟨es, hes, rfl⟩)

/-- **What a token can do to the entries**: some go, and those that come are of new groups or by
SGR. -/
theorem apply_entries {tok : Token} {codes : Text}
    (h : s.apply theme tok = .ok (codes, s')) :
    s.lastGroup ≤ s'.lastGroup
      ∧ ∀ e ∈ s'.entries, e ∈ s.entries ∨ e.Grouped theme s.lastGroup s'.lastGroup := by
  obtain ⟨source, words, resolved, rfl, hresolved, rfl⟩ | ⟨source, words, keep, rfl, rfl⟩ |
    ⟨es, -, rfl⟩ := apply_cases h
  · refine ⟨Int.le_add_of_nonneg_right (Int.natCast_nonneg _), fun e he => ?_⟩
    rcases List.mem_append.mp he with he | he
    · exact .inl he
    · -- the entry is in a block, so that block is not empty
      obtain ⟨b, hb, he⟩ := List.mem_flatMap.mp he
      obtain ⟨hname, horigin, hgroup⟩ := mem_block_entries he
      have hnot : b.pairs ≠ [] := by
        intro hnil
        unfold WordBlock.entries at he
        rw [hnil] at he
        exact nomatch he
      have hnew := blocksAfter_group hb
      right
      unfold Entry.Grouped
      rw [horigin, hgroup, hname]
      exact ⟨hnew.1, hnew.2, fun hsilent => hnot ((block_silent hresolved hb).mpr hsilent)⟩
  · exact ⟨Int.le_refl _, fun e he => .inl (List.mem_of_mem_filter he)⟩
  · obtain ⟨hlast, hentries⟩ := foldl_applyEffect_entries es s
    refine ⟨Int.le_of_eq hlast.symm, fun e he => ?_⟩
    rcases hentries e he with he | ⟨horigin, hgroup⟩
    · exact .inl he
    · right
      unfold Entry.Grouped
      rw [horigin]
      exact hgroup

/-! ## §4. Regular stacks. -/

/-- Entries by markup are in groups that were given out and have names that are not silent, and
entries by SGR are in group zero. -/
structure Stack.Regular (theme : Theme) (s : Stack) : Prop where
  counted : 0 ≤ s.lastGroup
  entries : ∀ e ∈ s.entries, e.Grouped theme 0 s.lastGroup

theorem empty_regular (theme : Theme) : Stack.empty.Regular theme :=
  ⟨Int.le_refl 0, fun _ he => nomatch he⟩

/-- **A token keeps a stack regular.** -/
theorem apply_regular (hs : s.Regular theme) {tok : Token} {codes : Text}
    (h : s.apply theme tok = .ok (codes, s')) : s'.Regular theme := by
  obtain ⟨hlast, hentries⟩ := apply_entries h
  refine ⟨Int.le_trans hs.counted hlast, fun e he => ?_⟩
  rcases hentries e he with he | hnew
  · exact (hs.entries e he).mono (Int.le_refl 0) hlast
  · exact hnew.mono hs.counted (Int.le_refl _)

/-- **A run of tokens keeps a stack regular**, also a run that a fault ends. -/
theorem feed_regular (hs : s.Regular theme) (toks : List Token) :
    (s.feed theme toks).2.Regular theme := by
  induction toks generalizing s with
  | nil => exact hs
  | cons tok toks ih =>
    rcases literal_or_style tok with ⟨t, rfl⟩ | hstyle
    · exact ih hs
    · cases happly : s.apply theme tok with
      | error fault =>
        rw [feed_error hstyle happly]
        exact hs
      | ok result =>
        obtain ⟨codes, next⟩ := result
        rw [feed_ok hstyle happly]
        exact ih (apply_regular hs happly)

end TermMarkup
