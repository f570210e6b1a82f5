/-
  TermMarkup.Proofs.Occurrences
  ─────────────────────────────
  A CLOSE REMOVES ONE OPENING.  Along a run of tokens, every word of every opening
  tag is an opening of its own, with the entries that were pushed for it.  Codes,
  closes and resets may take some or all of these entries away; what is left on
  the stack stays in the order of the openings.  The groups tell them apart: no
  two openings share one, and what SGR codes open is in none of them.  Hence the
  latest entry of a name leads to the latest opening of it that has an entry left,
  and what a close removes is what is left of this opening.

    • `Stack.openedBy`, `History` — the openings along a run,
    • `History.Accounted` — what every history keeps,
    • `next_accounted`, `of_accounted` — one token, and a run of tokens,
    • `Accounted.mem_entries_iff` — an entry is told by its group,
    • `close_removes_latest` — the close of a name.
-/
import TermMarkup.Proofs.Nesting

namespace TermMarkup

/-! ## §1. Openings. -/

namespace Stack

/-- What a token opens by the words of a tag: nothing if it is another token or has a fault. -/
def openedBy (theme : Theme) (s : Stack) : Token → List WordBlock
  | .tagOpen source words =>
    match resolveWords theme source words with
    | .ok resolved => blocksAfter s.lastGroup resolved
    | .error _ => []
  | _ => []

/-- The entries by markup. -/
def markup (s : Stack) : List Entry := s.entries.filter fun e => e.origin = .markup

end Stack

/-- A stack, and the words that tags have opened on it so far, in order. -/
structure History where
  stack : Stack
  opened : List WordBlock

namespace History

/-- A history with one more token.  A token with a fault changes nothing. -/
def next (theme : Theme) (h : History) (tok : Token) : History :=
  match h.stack.apply theme tok with
  | .ok (_, s) => ⟨s, h.opened ++ h.stack.openedBy theme tok⟩
  | .error _ => h

/-- The history of tokens from the empty stack on. -/
def of (theme : Theme) (toks : List Token) : History := toks.foldl (next theme) ⟨.empty, []⟩

/-- The latest opening of the word that has an entry on the stack. -/
def latest? (h : History) (name : Text) : Option WordBlock :=
  h.opened.reverse.find? fun b => b.word = name ∧ ∃ e ∈ h.stack.entries, e ∈ b.entries

end History

/-! ## §2. One token. -/

variable {theme : Theme} {s s' : Stack}

theorem openedBy_tagOpen {source : Text} {words : List Text}
    {resolved : List (Text × List StylePair)}
    (h : Stack.resolveWords theme source words = .ok resolved) :
    s.openedBy theme (.tagOpen source words) = blocksAfter s.lastGroup resolved := by
  unfold Stack.openedBy
  dsimp only
  rw [h]

/-- What a token opens is in groups that it gives out. -/
theorem openedBy_group {tok : Token} {codes : Text} (h : s.apply theme tok = .ok (codes, s')) :
    ∀ b ∈ s.openedBy theme tok, s.lastGroup < b.group ∧ b.group ≤ s'.lastGroup := by
  cases tok with
  | tagOpen source words =>
    obtain ⟨resolved, hresolved, rfl⟩ := openTag_eq_ok h
    rw [openedBy_tagOpen hresolved]
    exact fun b hb => blocksAfter_group hb
  | _ => exact fun b hb => nomatch hb

theorem openedBy_sorted (theme : Theme) (s : Stack) (tok : Token) :
    (s.openedBy theme tok).Pairwise fun b b' => b.group < b'.group := by
  cases tok with
  | tagOpen source words =>
    unfold Stack.openedBy
    dsimp only
    split
    · exact blocksAfter_sorted _ _
    · exact List.Pairwise.nil
  | _ => exact List.Pairwise.nil

/-- An effect opens nothing by markup. -/
theorem applyEffect_markup (s : Stack) (eff : Effect) :
    (s.applyEffect eff).markup.Sublist s.markup := by
  cases eff with
  | reset => exact List.nil_sublist _
  | switchOff ch => exact List.filter_sublist.filter _
  | switchOn d params =>
    show (List.filter _ (List.filter _ _ ++ [_])).Sublist _
    rw [List.filter_append]
    exact (List.append_nil _).symm ▸ List.filter_sublist.filter _

theorem foldl_applyEffect_markup (es : List Effect) (s : Stack) :
    (es.foldl Stack.applyEffect s).markup.Sublist s.markup := by
  induction es generalizing s with
  | nil => exact List.Sublist.refl _
  | cons eff es ih => exact (ih _).trans (applyEffect_markup s eff)

/-- **What a token leaves by markup** are entries that were there and, behind them, those of the
words that it opens. -/
theorem apply_markup {tok : Token} {codes : Text} (h : s.apply theme tok = .ok (codes, s')) :
    s'.markup.Sublist (s.markup ++ (s.openedBy theme tok).flatMap WordBlock.entries) := by
  obtain ⟨source, words, resolved, rfl, hresolved, rfl⟩ | ⟨source, words, keep, rfl, rfl⟩ |
    ⟨es, -, rfl⟩ := apply_cases h
  · rw [openedBy_tagOpen hresolved]
    show (List.filter _ (_ ++ _)).Sublist _
    rw [List.filter_append]
    exact (List.Sublist.refl _).append List.filter_sublist
  · exact (List.filter_sublist.filter _).trans (List.sublist_append_left _ _)
  · exact (foldl_applyEffect_markup es s).trans (List.sublist_append_left _ _)

/-! ## §3. Histories. -/

namespace History

/-- Each opening has a group of its own, later than the ones before it, and what is on the stack by
markup is what is left of the openings, in their order. -/
structure Accounted (theme : Theme) (h : History) : Prop where
  regular : h.stack.Regular theme
  groups : ∀ b ∈ h.opened, 0 < b.group ∧ b.group ≤ h.stack.lastGroup
  sorted : h.opened.Pairwise fun b b' => b.group < b'.group
  markup : h.stack.markup.Sublist (h.opened.flatMap WordBlock.entries)

variable {h : History}

/-- **A token keeps the account.** -/
theorem next_accounted (hh : h.Accounted theme) (tok : Token) :
    (h.next theme tok).Accounted theme := by
  unfold next
  cases happly : h.stack.apply theme tok with
  | error fault => exact hh
  | ok result =>
    obtain ⟨codes, s⟩ := result
    have hnew := openedBy_group happly
    have hlast := (apply_entries happly).1
    refine ⟨apply_regular hh.regular happly, fun b hb => ?_, ?_, ?_⟩
    · rcases List.mem_append.mp hb with hb | hb
      · exact ⟨(hh.groups b hb).1, Int.le_trans (hh.groups b hb).2 hlast⟩
      · exact ⟨Int.lt_of_le_of_lt hh.regular.counted (hnew b hb).1, (hnew b hb).2⟩
    · -- old openings have groups up to the last one given out, new ones have later groups
      exact List.pairwise_append.mpr ⟨hh.sorted, openedBy_sorted theme h.stack tok,
        fun b hb b' hb' => Int.lt_of_le_of_lt (hh.groups b hb).2 (hnew b' hb').1⟩
    · rw [List.flatMap_append]
      exact (apply_markup happly).trans (hh.markup.append (List.Sublist.refl _))

/-- **A run of tokens keeps the account.** -/
theorem of_accounted (theme : Theme) (toks : List Token) : (of theme toks).Accounted theme :=
  List.foldlRecOn (motive := fun h : History => h.Accounted theme) toks (next theme)
    ⟨empty_regular theme, fun _ hb => (nomatch hb), .nil, List.nil_sublist _⟩
    fun _ hh tok _ => next_accounted hh tok

/-! ## §4. The opening of an entry. -/

namespace Accounted

variable (hh : h.Accounted theme) {e : Entry} {b b' : WordBlock}
include hh

/-- **Every entry by markup is of an opening.** -/
theorem exists_opened (he : e ∈ h.stack.entries) (horigin : e.origin = .markup) :
    ∃ b ∈ h.opened, e ∈ b.entries := by
  have hmarkup : e ∈ h.stack.markup := List.mem_filter.mpr ⟨he, by simpa using horigin⟩
  exact List.mem_flatMap.mp (hh.markup.subset hmarkup)

theorem eq_of_group (hb : b ∈ h.opened) (hb' : b' ∈ h.opened) (hgroup : b.group = b'.group) :
    b = b' := by
  have hnodup : (h.opened.map WordBlock.group).Nodup :=
    List.pairwise_map.mpr (hh.sorted.imp fun hlt => Int.ne_of_lt hlt)
  exact List.inj_on_of_nodup_map hnodup hb hb' hgroup

/-- **An entry is told by its group**: it is of an opening if it has the group of this. -/
theorem mem_entries_iff (he : e ∈ h.stack.entries) (hb : b ∈ h.opened) :
    e ∈ b.entries ↔ e.group = b.group := by
  refine ⟨fun hmem => (mem_block_entries hmem).2.2, fun hgroup => ?_⟩
  cases horigin : e.origin with
  | ansi =>
    -- an entry by SGR is in group zero, which no opening has
    have hzero := (hh.regular.entries e he).of_ansi horigin
    have hpositive := (hh.groups b hb).1
    omega
  | markup =>
    obtain ⟨b', hb', hmem⟩ := hh.exists_opened he horigin
    have hsame := (mem_block_entries hmem).2.2
    rwa [hh.eq_of_group hb hb' (hgroup.symm.trans hsame)]

/-- What is on the stack by markup is in the order of the groups. -/
theorem groups_sorted : h.stack.entries.Pairwise fun e e' =>
    e.origin = .markup → e'.origin = .markup → e.group ≤ e'.group := by
  have hopenings : (h.opened.flatMap WordBlock.entries).Pairwise fun e e' => e.group ≤ e'.group := by
    refine List.pairwise_flatMap.mpr ⟨fun b _ => ?_, hh.sorted.imp fun hlt e he e' he' => ?_⟩
    · refine List.pairwise_of_forall_mem_list fun e he e' he' => ?_
      exact Int.le_of_eq ((mem_block_entries he).2.2.trans (mem_block_entries he').2.2.symm)
    · rw [(mem_block_entries he).2.2, (mem_block_entries he').2.2]
      exact Int.le_of_lt hlt
  have hmarkup := List.pairwise_filter.mp (hopenings.sublist hh.markup)
  simpa using hmarkup

end Accounted

end History

/-! ## §5. The close of a name. -/

/-- In an ordered list, the last match stands behind every other. -/
theorem rel_of_find?_reverse {α : Type} {r : α → α → Prop} {p : α → Bool} {l : List α} {a : α}
    (hl : l.Pairwise r) (ha : l.reverse.find? p = some a) {x : α} (hx : x ∈ l) (hp : p x = true) :
    x = a ∨ r x a := by
  obtain ⟨-, later, earlier, hsplit, hlater⟩ := List.find?_eq_some_iff_append.mp ha
  -- seen from the end, what stands in front of the first match is no match
  have horder : (later ++ a :: earlier).Pairwise fun y z => r z y := by
    rw [← hsplit]
    exact List.pairwise_reverse.mpr hl
  have hmem : x ∈ later ++ a :: earlier := hsplit ▸ List.mem_reverse.mpr hx
  rcases List.mem_append.mp hmem with hmem | hmem
  · have hnot := hlater x hmem
    rw [hp] at hnot
    exact nomatch hnot
  · rcases List.mem_cons.mp hmem with rfl | hmem
    · exact .inl rfl
    · exact .inr ((List.pairwise_cons.mp (List.pairwise_append.mp horder).2.1).1 x hmem)

namespace History

variable {h : History} {name : Text} {b : WordBlock}

theorem latest?_eq_some (hlatest : h.latest? name = some b) :
    b ∈ h.opened ∧ b.word = name ∧ ∃ e ∈ h.stack.entries, e ∈ b.entries := by
  have hmatch := List.find?_some hlatest
  exact ⟨List.mem_reverse.mp (List.mem_of_find?_eq_some hlatest), of_decide_eq_true hmatch⟩

namespace Accounted

variable (hh : h.Accounted theme)
include hh

/-- A name that no opening has an entry of closes nothing. -/
theorem close_none (hlatest : h.latest? name = none) : h.stack.close name = ([], h.stack) := by
  refine close_of_none fun e he horigin hname => ?_
  obtain ⟨b, hb, hmem⟩ := hh.exists_opened he horigin
  refine List.find?_eq_none.mp hlatest b (List.mem_reverse.mpr hb) (decide_eq_true ?_)
  exact ⟨(mem_block_entries hmem).1.symm.trans hname, e, he, hmem⟩

/-- **The latest entry of a name is of the latest opening that has one.** -/
theorem groupToClose?_latest (hlatest : h.latest? name = some b) :
    h.stack.groupToClose? name = some b.group := by
  obtain ⟨hb, hword, first, hfirst, hmemfirst⟩ := latest?_eq_some hlatest
  obtain ⟨hnamefirst, horiginfirst, hgroupfirst⟩ := mem_block_entries hmemfirst
  have hmatch : first.origin = .markup ∧ first.name = name :=
    ⟨horiginfirst, hnamefirst.trans hword⟩
  unfold Stack.groupToClose?
  cases hfind : h.stack.entries.reverse.find? fun e => e.origin = .markup ∧ e.name = name with
  | none =>
    exact absurd (decide_eq_true hmatch)
      (List.find?_eq_none.mp hfind first (List.mem_reverse.mpr hfirst))
  | some e =>
    have he : e ∈ h.stack.entries := List.mem_reverse.mp (List.mem_of_find?_eq_some hfind)
    obtain ⟨horigin, hname⟩ : e.origin = .markup ∧ e.name = name := by
      simpa using List.find?_some hfind
    obtain ⟨b', hb', hmem⟩ := hh.exists_opened he horigin
    obtain ⟨hnameblock, -, hgroup⟩ := mem_block_entries hmem
    -- the opening of this entry is no later than the latest one
    have hle : b'.group ≤ b.group := by
      have hopen : b'.word = name ∧ ∃ e ∈ h.stack.entries, e ∈ b'.entries :=
        ⟨hnameblock.symm.trans hname, e, he, hmem⟩
      rcases rel_of_find?_reverse hh.sorted hlatest hb' (decide_eq_true hopen) with rfl | hlt
      · exact Int.le_refl _
      · exact Int.le_of_lt hlt
    -- and the entry is no earlier than one of the latest opening
    have hge : b.group ≤ b'.group := by
      rw [← hgroup, ← hgroupfirst]
      rcases rel_of_find?_reverse hh.groups_sorted hfind hfirst (decide_eq_true hmatch) with
        rfl | hrel
      · exact Int.le_refl _
      · exact hrel horiginfirst horigin
    exact congrArg some (hgroup.trans (Int.le_antisymm hle hge))

/-- **A close removes what is left of the latest opening.** -/
theorem close_some (hlatest : h.latest? name = some b) :
    h.stack.close name
      = (h.stack.entries.filter fun e => e ∈ b.entries,
          { h.stack with entries := h.stack.entries.filter fun e => e ∉ b.entries }) := by
  obtain ⟨hb, hword, -⟩ := latest?_eq_some hlatest
  have hgoes : ∀ e ∈ h.stack.entries, (e.name = name ∧ e.group = b.group) ↔ e ∈ b.entries := by
    intro e he
    rw [hh.mem_entries_iff he hb]
    refine ⟨And.right, fun hgroup => ⟨?_, hgroup⟩⟩
    exact (mem_block_entries ((hh.mem_entries_iff he hb).mpr hgroup)).1.trans hword
  rw [close_of_some (hh.groupToClose?_latest hlatest)]
  refine Prod.ext (List.filter_congr fun e he => decide_eq_decide.mpr (hgoes e he)) ?_
  refine congrArg (Stack.mk · _) (List.filter_congr fun e he => ?_)
  rw [decide_not, decide_eq_decide.mpr (hgoes e he)]

end Accounted

end History

/-- **A close removes one opening.**  On every stack that a run of tokens leaves, the close of a name
removes what is left of the latest opening of this name that has an entry left, and nothing else; if
there is none, it removes nothing.  Each entry by markup is of exactly one opening, and an entry by
SGR is of none, so it stays. -/
theorem close_removes_latest (theme : Theme) (toks : List Token) (name : Text) :
    let h := History.of theme toks
    h.stack.close name
        = (match h.latest? name with
          | some b => (h.stack.entries.filter fun e => e ∈ b.entries,
              { h.stack with entries := h.stack.entries.filter fun e => e ∉ b.entries })
          | none => ([], h.stack))
      ∧ (∀ e ∈ h.stack.entries, e.origin = .markup → ∃! b, b ∈ h.opened ∧ e ∈ b.entries)
      ∧ ∀ e ∈ h.stack.entries, e.origin = .ansi →
          (∀ b ∈ h.opened, e ∉ b.entries) ∧ e ∈ (h.stack.close name).2.entries := by
  intro h
  have hh : h.Accounted theme := History.of_accounted theme toks
  -- a raw entry may have the name of a word, but not the origin
  have hraw : ∀ e : Entry, e.origin = .ansi → ∀ b : WordBlock, e ∉ b.entries :=
    fun e horigin b hmem => nomatch horigin.symm.trans (mem_block_entries hmem).2.1
  refine ⟨?_, fun e he horigin => ?_, fun e he horigin => ⟨fun b _ => hraw e horigin b, ?_⟩⟩
  · cases hlatest : h.latest? name with
    | none => exact hh.close_none hlatest
    | some b => exact hh.close_some hlatest
  · obtain ⟨b, hb, hmem⟩ := hh.exists_opened he horigin
    refine ⟨b, ⟨hb, hmem⟩, fun b' hb' => hh.eq_of_group hb'.1 hb ?_⟩
    exact (mem_block_entries hb'.2).2.2.symm.trans (mem_block_entries hmem).2.2
  · cases hlatest : h.latest? name with
    | none =>
      rw [hh.close_none hlatest]
      exact he
    | some b =>
      rw [hh.close_some hlatest]
      exact List.mem_filter.mpr ⟨he, decide_eq_true (hraw e horigin b)⟩

/-- A word that a tag opens twice, a raw code with the name of another word, a reset of the color and
a close: the next close finds the first opening, which is the latest with an entry left. -/
theorem close_removes_latest_repeated :
    let theme := Theme.standard.set .info "red bold".toList
    let toks : List Token :=
      [.tagOpen "{info bold info}".toList ["info".toList, "bold".toList, "info".toList],
       .codeOpen "\x1b[1m".toList "\x1b[22m".toList, .literal "a".toList,
       .codeClose "\x1b[39m".toList, .tagClose "{/info}".toList ["info".toList]]
    let h := History.of theme toks
    let entry (name : Text) (origin : Origin) (group : Int) : Entry :=
      ⟨name, "\x1b[1m".toList, "\x1b[22m".toList, origin, group⟩
    h.stack.close "info".toList
        = ([entry "info".toList .markup 1],
          ⟨[entry "bold".toList .markup 2, entry "bold".toList .ansi 0], 3⟩)
      ∧ (∃! b, b ∈ h.opened ∧ entry "bold".toList .markup 2 ∈ b.entries)
      ∧ (∀ b ∈ h.opened, entry "bold".toList .ansi 0 ∉ b.entries)
      ∧ entry "bold".toList .ansi 0 ∈ (h.stack.close "info".toList).2.entries := by
  intro theme toks h entry
  obtain ⟨hclose, hmarkup, hraw⟩ := close_removes_latest theme toks "info".toList
  have hstack : entry "bold".toList .markup 2 ∈ h.stack.entries
      ∧ entry "bold".toList .ansi 0 ∈ h.stack.entries := by
    decide +kernel
  exact ⟨hclose.trans (by decide +kernel), hmarkup _ hstack.1 rfl, hraw _ hstack.2 rfl⟩

end TermMarkup
