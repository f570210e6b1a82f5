/-
  TermMarkup.Proofs.StackShape
  ────────────────────────────
  THE SHAPE OF A STACK.  Tokens edit the entries of a stack in five ways: a word of a
  tag pushes a group, a close takes a group away, a code takes away what has its close
  or puts an entry in the place of another of its dimension, and a reset clears all.
  Whatever tokens come, those with faults among them, the entries stay in order.
  Those by SGR are in group zero, one for each dimension at most.  Those by markup
  stand in the order of their groups, and a group is that of one word.

    • `Stack.RawOnce` — the entries by SGR, one for each dimension,
    • `applyEffect_rawOnce`, `apply_rawOnce` — an effect and a token keep this,
    • `run_tokens_stack` — tokens in place leave the stack of their history,
    • `Stack.Orderly`, `run_orderly` — what every run of tokens leaves.
-/
import TermMarkup.Proofs.InPlace
import TermMarkup.Proofs.Occurrences

namespace TermMarkup

/-! ## §1. Entries by SGR. -/

namespace Stack

/-- The entries by SGR. -/
def raw (s : Stack) : List Entry := s.entries.filter fun e => e.origin = .ansi

/-- Every entry by SGR is named for a dimension, and no two for the same one. -/
structure RawOnce (s : Stack) : Prop where
  named : ∀ e ∈ s.raw, ∃ d : Dimension, e.name = d.name
  nodup : (s.raw.map Entry.name).Nodup

end Stack

variable {theme : Theme} {s s' : Stack}

/-- Entries that go leave the others as they were. -/
theorem Stack.RawOnce.of_sublist (hs : s.RawOnce) (h : s'.raw.Sublist s.raw) : s'.RawOnce :=
  ⟨fun e he => hs.named e (h.subset he), hs.nodup.sublist (h.map Entry.name)⟩

theorem empty_rawOnce : Stack.empty.RawOnce := ⟨fun _ he => (nomatch he), List.nodup_nil⟩

/-- Opening a dimension replaces its entry by SGR. -/
theorem raw_switchOn (s : Stack) (d : Dimension) (params : Text) :
    (s.applyEffect (.switchOn d params)).raw
      = (s.raw.filter fun e => e.name ≠ d.name)
        ++ [⟨d.name, Sgr.code params, d.channel.closeCode, .ansi, 0⟩] := by
  have hkept : ∀ e : Entry, (decide (e.origin = .ansi)
      && !decide (e.origin = .ansi ∧ e.name = d.name))
        = (decide (e.name ≠ d.name) && decide (e.origin = .ansi)) := by
    intro e
    by_cases horigin : e.origin = .ansi <;> simp [horigin]
  unfold Stack.raw
  show List.filter _ (s.entries.filter _ ++ [_]) = _
  rw [List.filter_append, List.filter_filter, List.filter_filter]
  exact congrArg (· ++ _) (List.filter_congr fun e _ => hkept e)

/-- **An effect keeps one entry for each dimension.** -/
theorem applyEffect_rawOnce (hs : s.RawOnce) (eff : Effect) : (s.applyEffect eff).RawOnce := by
  cases eff with
  | reset => exact hs.of_sublist (List.nil_sublist _)
  | switchOff ch => exact hs.of_sublist (List.filter_sublist.filter _)
  | switchOn d params =>
    refine ⟨fun e he => ?_, ?_⟩
    · rw [raw_switchOn] at he
      rcases List.mem_append.mp he with he | he
      · exact hs.named e (List.mem_of_mem_filter he)
      · obtain rfl := List.mem_singleton.mp he
        exact ⟨d, rfl⟩
    · -- the entry that had the name of the dimension has gone
      rw [raw_switchOn, List.map_append, List.map_singleton]
      refine List.nodup_append.mpr ⟨hs.nodup.sublist (List.filter_sublist.map _),
        List.nodup_singleton _, fun name hname last hlast heq => ?_⟩
      obtain ⟨e, he, rfl⟩ := List.mem_map.mp hname
      obtain rfl := List.mem_singleton.mp hlast
      simpa [heq] using (List.mem_filter.mp he).2

theorem foldl_applyEffect_rawOnce (hs : s.RawOnce) (es : List Effect) :
    (es.foldl Stack.applyEffect s).RawOnce := by
  induction es generalizing s with
  | nil => exact hs
  | cons eff es ih => exact ih (applyEffect_rawOnce hs eff)

/-- **A token keeps one entry for each dimension**: a tag opens none by SGR, and a close only takes
entries away. -/
theorem apply_rawOnce (hs : s.RawOnce) {tok : Token} {codes : Text}
    (h : s.apply theme tok = .ok (codes, s')) : s'.RawOnce := by
  obtain ⟨source, words, resolved, -, -, rfl⟩ | ⟨source, words, keep, -, rfl⟩ | ⟨es, -, rfl⟩ :=
    apply_cases h
  · have hnone : ((blocksAfter s.lastGroup resolved).flatMap WordBlock.entries).filter
        (fun e => e.origin = .ansi) = [] := by
      refine List.filter_eq_nil_iff.mpr fun e he => ?_
      obtain ⟨b, -, he⟩ := List.mem_flatMap.mp he
      simp [(mem_block_entries he).2.1]
    refine hs.of_sublist ?_
    show (List.filter _ (_ ++ _)).Sublist s.raw
    rw [List.filter_append, hnone, List.append_nil]
    exact List.Sublist.refl _
  · exact hs.of_sublist (List.filter_sublist.filter _)
  · exact foldl_applyEffect_rawOnce hs es

/-! ## §2. Runs of tokens in place. -/

/-- A token in place leaves the stack of a history with this token. -/
theorem on_apply_stack (h : History) (tok : Token) :
    (((Stack.Action.apply tok).work theme).on h.stack).2 = (h.next theme tok).stack := by
  have hon : (Work.apply theme tok).on h.stack = Work.settled h.stack (h.stack.apply theme tok) :=
    Work.apply_on tok h.stack
  unfold History.next
  cases happly : h.stack.apply theme tok with
  | error fault =>
    rw [happly] at hon
    exact congrArg Prod.snd (Work.on_bind_error hon)
  | ok result =>
    obtain ⟨codes, s⟩ := result
    rw [happly] at hon
    exact congrArg Prod.snd (Work.on_bind_ok hon)

/-- **Tokens in place leave the stack of their history**, also where tokens have faults. -/
theorem run_tokens_stack (theme : Theme) (toks : List Token) :
    (Stack.run theme (toks.map .apply) .empty).2 = (History.of theme toks).stack := by
  have hrun : ∀ h : History, (Stack.run theme (toks.map .apply) h.stack).2
      = (toks.foldl (History.next theme) h).stack := by
    induction toks with
    | nil => exact fun h => rfl
    | cons tok toks ih =>
      intro h
      rw [List.map_cons, Stack.run_cons, on_apply_stack]
      exact ih _
  exact hrun ⟨.empty, []⟩

theorem History.of_rawOnce (theme : Theme) (toks : List Token) :
    (History.of theme toks).stack.RawOnce := by
  refine List.foldlRecOn (motive := fun h : History => h.stack.RawOnce) toks (History.next theme)
    empty_rawOnce fun h hh tok _ => ?_
  unfold History.next
  cases happly : h.stack.apply theme tok with
  | error fault => exact hh
  | ok result => exact apply_rawOnce hh happly

/-! ## §3. Order. -/

/-- **How the entries of a stack stand.**  Group zero is that of no word: it holds what SGR codes
have opened. -/
structure Stack.Orderly (s : Stack) : Prop where
  raw_group : ∀ e ∈ s.raw, e.group = 0
  raw_named : ∀ e ∈ s.raw, ∃ d : Dimension, e.name = d.name
  raw_once : ∀ d : Dimension, s.raw.countP (fun e => e.name = d.name) ≤ 1
  groups : ∀ e ∈ s.markup, 1 ≤ e.group ∧ e.group ≤ s.lastGroup
  sorted : s.markup.Pairwise fun e e' => e.group ≤ e'.group
  one_name : ∀ e ∈ s.markup, ∀ e' ∈ s.entries, e'.group = e.group → e'.name = e.name

theorem Stack.RawOnce.countP_le_one (hs : s.RawOnce) (d : Dimension) :
    s.raw.countP (fun e => e.name = d.name) ≤ 1 := by
  have hcount := List.nodup_iff_count_le_one.mp hs.nodup d.name
  rw [List.count, List.countP_map] at hcount
  refine Nat.le_trans (Nat.le_of_eq (List.countP_congr fun e _ => ?_)) hcount
  rw [Function.comp_apply, decide_eq_true_eq, beq_iff_eq]

namespace History.Accounted

variable {h : History} (hh : h.Accounted theme) {e e' : Entry}
include hh

/-- What shares the group of an entry by markup is of the same opening, so it has its name. -/
theorem name_eq_of_group (he : e ∈ h.stack.markup) (he' : e' ∈ h.stack.entries)
    (hgroup : e'.group = e.group) : e'.name = e.name := by
  obtain ⟨he, horigin⟩ := List.mem_filter.mp he
  obtain ⟨b, hb, hmem⟩ := hh.exists_opened he (of_decide_eq_true horigin)
  have hmem' : e' ∈ b.entries :=
    (hh.mem_entries_iff he' hb).mpr (hgroup.trans (mem_block_entries hmem).2.2)
  exact (mem_block_entries hmem').1.trans (mem_block_entries hmem).1.symm

/-- What is left of the openings along a run is in their order. -/
theorem orderly (hraw : h.stack.RawOnce) : h.stack.Orderly where
  raw_group := by
    intro e he
    obtain ⟨he, horigin⟩ := List.mem_filter.mp he
    exact (hh.regular.entries e he).of_ansi (of_decide_eq_true horigin)
  raw_named := hraw.named
  raw_once := hraw.countP_le_one
  groups := by
    intro e he
    obtain ⟨he, horigin⟩ := List.mem_filter.mp he
    obtain ⟨hlow, hhigh, -⟩ :=
      (hh.regular.entries e he).of_markup (of_decide_eq_true horigin)
    exact ⟨hlow, hhigh⟩
  sorted := by
    have hsorted := hh.groups_sorted.filter fun e => e.origin = .markup
    refine hsorted.imp_of_mem fun he he' hle => ?_
    exact hle (by simpa using (List.mem_filter.mp he).2)
      (by simpa using (List.mem_filter.mp he').2)
  one_name := fun _ he _ he' hgroup => hh.name_eq_of_group he he' hgroup

end History.Accounted

/-- **Tokens keep a stack in order.**  Whatever tokens act on the empty stack, where a fault ends
the work of its token and leaves what this has done by then: entries by SGR are in group zero, each
named for a dimension, with at most one for each; entries by markup are in groups from one up to the
last one given out, which do not decrease along the stack; and all entries in the group of an entry
by markup have its name. -/
theorem Stack.run_orderly (theme : Theme) (toks : List Token) :
    (Stack.run theme (toks.map .apply) .empty).2.Orderly := by
  rw [run_tokens_stack]
  exact (History.of_accounted theme toks).orderly (History.of_rawOnce theme toks)

/-- A word that a tag opens twice, a color code that a later code replaces, a tag with a fault
behind its first word, and a close. -/
example :
    let toks : List Token :=
      [.tagOpen "{bold red bold}".toList ["bold".toList, "red".toList, "bold".toList],
       .codeOpen "\x1b[31m".toList "\x1b[39m".toList,
       .tagOpen "{dim nosuch}".toList ["dim".toList, "nosuch".toList],
       .codeOpen "\x1b[1;32m".toList "\x1b[22m\x1b[39m".toList,
       .tagClose "{/red}".toList ["red".toList]]
    (Stack.run Theme.standard (toks.map .apply) .empty).2.entries.map
        (fun e => (e.name, e.origin, e.group))
      = [("bold".toList, .markup, 1), ("bold".toList, .markup, 3), ("bold".toList, .ansi, 0),
          ("fg".toList, .ansi, 0)] := by
  decide +kernel

end TermMarkup
