/-
  TermMarkup.Proofs.Regrouping
  ────────────────────────────
  A STACK FORGETS HOW MANY GROUPS IT GAVE OUT.  Groups only tell the entries of
  one word in one tag from others, so it does not matter with which group a
  stack begins: on a stack whose groups are moved on, tokens write the same
  codes, fail with the same fault and leave the same entries, moved on.

    • `Entry.regroup`, `Stack.regroup` — groups moved on,
    • `close_regroup`, `closeTag_regroup` — closing on such a stack,
    • `apply_regroup` — one token,
    • `ofTokens_regroup` — compiled tokens.
-/
import TermMarkup.Proofs.Groups
import TermMarkup.Proofs.Recast

namespace TermMarkup

/-! ## §1. Entries. -/

/-- The entry with its group moved on by `k`; what SGR opened stays in group zero. -/
def Entry.regroup (k : Int) (e : Entry) : Entry :=
  match e.origin with
  | .markup => { e with group := e.group + k }
  | .ansi => e

section

variable (k : Int) (e : Entry)

theorem regroup_name : (e.regroup k).name = e.name := by
  unfold Entry.regroup
  split <;> rfl

theorem regroup_opens : (e.regroup k).opens = e.opens := by
  unfold Entry.regroup
  split <;> rfl

theorem regroup_closes : (e.regroup k).closes = e.closes := by
  unfold Entry.regroup
  split <;> rfl

theorem regroup_origin : (e.regroup k).origin = e.origin := by
  unfold Entry.regroup
  split <;> rfl

end

/-- No two entries become one. -/
theorem regroup_injective (k : Int) : Function.Injective (Entry.regroup k) := by
  intro e e' h
  -- the origin is kept, and tells how each of the two was moved
  have horigin : e.origin = e'.origin := by
    rw [← regroup_origin k e, h, regroup_origin]
  unfold Entry.regroup at h
  rw [horigin] at h
  cases e with
  | mk name opens closes origin group =>
    cases e' with
    | mk name' opens' closes' origin' group' =>
      obtain rfl : origin = origin' := horigin
      cases origin with
      | ansi => exact h
      | markup =>
        simp only [Entry.mk.injEq] at h ⊢
        obtain ⟨hname, hopens, hcloses, -, hgroup⟩ := h
        exact ⟨hname, hopens, hcloses, trivial, by omega⟩

/-- An entry stays in a group of tags, moved on with it, or outside of it. -/
theorem regroup_group {theme : Theme} {k high group : Int} (hk : 0 ≤ k) {e : Entry}
    (he : e.Grouped theme 0 high) (hgroup : 0 < group) :
    (e.regroup k).group = group + k ↔ e.group = group := by
  unfold Entry.Grouped at he
  unfold Entry.regroup
  -- group zero is no group of tags, before or after
  split at he
  · next horigin =>
    rw [horigin]
    dsimp only
    omega
  · next horigin =>
    rw [horigin]
    dsimp only
    omega

/-! ## §2. Stacks. -/

/-- The stack with its groups moved on. -/
def Stack.regroup (k : Int) (s : Stack) : Stack :=
  ⟨s.entries.map (Entry.regroup k), s.lastGroup + k⟩

variable {theme : Theme} {s : Stack} {k : Int}

theorem filter_regroup {keep : Entry → Bool} (hkeep : ∀ e, keep (e.regroup k) = keep e)
    (entries : List Entry) :
    (entries.map (Entry.regroup k)).filter keep = (entries.filter keep).map (Entry.regroup k) := by
  rw [List.filter_map]
  exact congrArg _ (List.filter_congr fun e _ => hkeep e)

/-- What a close looks for was opened by markup. -/
theorem origin_of_find? {entries : List Entry} {name : Text} {e : Entry}
    (h : entries.find? (fun e => e.origin = .markup ∧ e.name = name) = some e) :
    e.origin = .markup := by
  have hfound := List.find?_some h
  rw [decide_eq_true_eq] at hfound
  exact hfound.1

theorem groupToClose?_regroup (k : Int) (s : Stack) (name : Text) :
    (s.regroup k).groupToClose? name = (s.groupToClose? name).map (· + k) := by
  have hfind : (s.entries.map (Entry.regroup k)).reverse.find?
        (fun e => e.origin = .markup ∧ e.name = name)
      = (s.entries.reverse.find? fun e => e.origin = .markup ∧ e.name = name).map
          (Entry.regroup k) := by
    rw [← List.map_reverse, List.find?_map]
    refine congrArg (fun p => (s.entries.reverse.find? p).map _) (funext fun e => ?_)
    show decide ((e.regroup k).origin = .markup ∧ (e.regroup k).name = name) = _
    rw [regroup_origin, regroup_name]
  unfold Stack.groupToClose?
  show ((s.entries.map (Entry.regroup k)).reverse.find? _).map Entry.group = _
  rw [hfind, Option.map_map, Option.map_map]
  cases hfound : s.entries.reverse.find? (fun e => e.origin = .markup ∧ e.name = name) with
  | none => rfl
  | some e =>
    show some (e.regroup k).group = some (e.group + k)
    unfold Entry.regroup
    rw [origin_of_find? hfound]

/-- A group that a close removes was given out. -/
theorem groupToClose?_pos (hs : s.Regular theme) {name : Text} {group : Int}
    (h : s.groupToClose? name = some group) : 0 < group := by
  obtain ⟨e, he, rfl⟩ := Option.map_eq_some_iff.mp h
  have hgrouped := hs.entries e (List.mem_reverse.mp (List.mem_of_find?_eq_some he))
  exact (hgrouped.of_markup (origin_of_find? he)).1

theorem close_regular (hs : s.Regular theme) (name : Text) : (s.close name).2.Regular theme := by
  unfold Stack.close
  split
  · exact hs
  · exact ⟨hs.counted, fun e he => hs.entries e (List.mem_of_mem_filter he)⟩

/-- **A close removes the same entries**, wherever their groups begin. -/
theorem close_regroup (hk : 0 ≤ k) (hs : s.Regular theme) (name : Text) :
    (s.regroup k).close name
      = ((s.close name).1.map (Entry.regroup k), (s.close name).2.regroup k) := by
  have hmoved := groupToClose?_regroup k s name
  cases hgroup : s.groupToClose? name with
  | none =>
    rw [hgroup] at hmoved
    unfold Stack.close
    rw [hgroup, hmoved]
    rfl
  | some group =>
    rw [hgroup] at hmoved
    have hgoes : ∀ e ∈ s.entries,
        decide ((e.regroup k).name = name ∧ (e.regroup k).group = group + k)
          = decide (e.name = name ∧ e.group = group) := by
      intro e he
      rw [regroup_name, decide_eq_decide,
        regroup_group hk (hs.entries e he) (groupToClose?_pos hs hgroup)]
    rw [close_of_some hgroup, close_of_some hmoved]
    show ((s.entries.map (Entry.regroup k)).filter _,
      Stack.mk ((s.entries.map (Entry.regroup k)).filter _) (s.lastGroup + k))
      = ((s.entries.filter _).map _, Stack.mk ((s.entries.filter _).map _) (s.lastGroup + k))
    rw [List.filter_map, List.filter_map]
    refine Prod.ext ?_ (congrArg (Stack.mk · _) ?_)
    · exact congrArg (List.map _) (List.filter_congr fun e he => hgoes e he)
    · exact congrArg (List.map _) (List.filter_congr fun e he => congrArg (!·) (hgoes e he))

theorem closeAll_regroup (hk : 0 ≤ k) (hs : s.Regular theme) (names : List Text) :
    (s.regroup k).closeAll names
      = ((s.closeAll names).1.map (Entry.regroup k), (s.closeAll names).2.regroup k) := by
  induction names generalizing s with
  | nil => rfl
  | cons name names ih =>
    show (((s.regroup k).close name).1 ++ (((s.regroup k).close name).2.closeAll names).1,
      (((s.regroup k).close name).2.closeAll names).2) = _
    rw [close_regroup hk hs, ih (close_regular hs name), ← List.map_append]
    rfl

/-- **A closing tag writes the same codes**, wherever the groups begin. -/
theorem closeTag_regroup (hk : 0 ≤ k) (hs : s.Regular theme) (words : List Text) :
    (s.regroup k).closeTag words
      = ((s.closeTag words).1, (s.closeTag words).2.regroup k) := by
  -- what goes is told by equality of entries
  have hclosed : (s.entries.map (Entry.regroup k)).filter
        (fun e => ((s.closeAll words).1.map (Entry.regroup k)).contains e)
      = (s.entries.filter fun e => (s.closeAll words).1.contains e).map (Entry.regroup k) := by
    rw [List.filter_map]
    refine congrArg (List.map _) (List.filter_congr fun e _ => ?_)
    rw [Bool.eq_iff_iff, Function.comp, List.contains_iff_mem, List.contains_iff_mem]
    exact List.mem_map_of_injective (regroup_injective k)
  have hcloses : ∀ es : List Entry,
      (es.map (Entry.regroup k)).map Entry.closes = es.map Entry.closes := by
    intro es
    rw [List.map_map]
    exact List.map_congr_left fun e _ => regroup_closes k e
  have hrestored : ∀ (closed : List Text) (es : List Entry),
      (es.map (Entry.regroup k)).filter (fun e => closed.contains e.closes)
        = (es.filter fun e => closed.contains e.closes).map (Entry.regroup k) :=
    fun closed => filter_regroup fun e => congrArg closed.contains (regroup_closes k e)
  have hcode : ∀ s : Stack, s.closeTag words
      = (closings (s.entries.filter fun e => (s.closeAll words).1.contains e)
          ++ openings ((s.closeAll words).2.entries.filter fun e =>
            ((s.entries.filter fun e => (s.closeAll words).1.contains e).map
              Entry.closes).contains e.closes), (s.closeAll words).2) :=
    fun s => rfl
  have hentries : (s.regroup k).entries = s.entries.map (Entry.regroup k) := rfl
  have hafter : ((s.closeAll words).2.regroup k).entries
      = (s.closeAll words).2.entries.map (Entry.regroup k) := rfl
  rw [hcode, hcode, closeAll_regroup hk hs, hentries, hafter, hclosed, hcloses, hrestored,
    closings_recast (regroup_closes k), openings_recast (regroup_opens k)]

/-! ## §3. Tokens. -/

theorem openWord_regroup (k : Int) (s : Stack) (word : Text) (pairs : List StylePair) :
    (s.regroup k).openWord word pairs = (s.openWord word pairs).regroup k := by
  have hlast : s.lastGroup + k + 1 = s.lastGroup + 1 + k := by omega
  unfold Stack.openWord Stack.regroup
  dsimp only
  rw [hlast, List.map_append, List.map_map]
  rfl

theorem foldl_openWord_regroup (k : Int) (resolved : List (Text × List StylePair)) (s : Stack) :
    resolved.foldl (fun s (word, pairs) => s.openWord word pairs) (s.regroup k)
      = (resolved.foldl (fun s (word, pairs) => s.openWord word pairs) s).regroup k := by
  induction resolved generalizing s with
  | nil => rfl
  | cons w resolved ih =>
    obtain ⟨word, pairs⟩ := w
    rw [List.foldl_cons, List.foldl_cons]
    dsimp only
    rw [openWord_regroup]
    exact ih _

theorem openTag_regroup (k : Int) (s : Stack) (tag : Text) (words : List Text) :
    (s.regroup k).openTag theme tag words
      = (s.openTag theme tag words).map fun r => (r.1, r.2.regroup k) := by
  unfold Stack.openTag
  cases Stack.resolveWords theme tag words with
  | error fault => rfl
  | ok resolved => exact congrArg (fun s => Except.ok (_, s)) (foldl_openWord_regroup k resolved s)

theorem applyEffect_regroup (k : Int) (s : Stack) (eff : Effect) :
    (s.regroup k).applyEffect eff = (s.applyEffect eff).regroup k := by
  cases eff with
  | reset => rfl
  | switchOff channel =>
    refine congrArg (Stack.mk · _) (filter_regroup (fun e => ?_) s.entries)
    rw [regroup_closes]
  | switchOn dimension params =>
    have hothers : (s.entries.map (Entry.regroup k)).filter
          (fun e => !decide (e.origin = .ansi ∧ e.name = dimension.name))
        = (s.entries.filter fun e => !decide (e.origin = .ansi ∧ e.name = dimension.name)).map
            (Entry.regroup k) :=
      filter_regroup (fun e => by rw [regroup_origin, regroup_name]) s.entries
    unfold Stack.applyEffect Stack.regroup
    dsimp only
    rw [hothers, List.map_append]
    rfl

theorem applyCode_regroup (k : Int) (s : Stack) (code : Text) :
    (s.regroup k).applyCode code = (s.applyCode code).map (Stack.regroup k) := by
  unfold Stack.applyCode
  cases Effect.ofCode code with
  | error fault => rfl
  | ok es =>
    show Except.ok (es.foldl Stack.applyEffect (s.regroup k))
      = Except.ok ((es.foldl Stack.applyEffect s).regroup k)
    refine congrArg Except.ok ?_
    induction es generalizing s with
    | nil => rfl
    | cons eff es ih =>
      rw [List.foldl_cons, List.foldl_cons, applyEffect_regroup]
      exact ih _

/-- **A token writes the same codes**, wherever the groups begin. -/
theorem apply_regroup (hk : 0 ≤ k) (hs : s.Regular theme) (tok : Token) :
    (s.regroup k).apply theme tok = (s.apply theme tok).map fun r => (r.1, r.2.regroup k) := by
  have hcode : ∀ code : Text,
      (do return (code, ← (s.regroup k).applyCode code) : Except Fault (Text × Stack))
        = (do return (code, ← s.applyCode code) : Except Fault (Text × Stack)).map
            fun r => (r.1, r.2.regroup k) := by
    intro code
    rw [applyCode_regroup]
    cases s.applyCode code <;> rfl
  cases tok with
  | literal t => rfl
  | tagOpen source words => exact openTag_regroup k s source words
  | tagClose source words => exact congrArg Except.ok (closeTag_regroup hk hs words)
  | codeOpen code closes => exact hcode code
  | codeClose code => exact hcode code

/-- **Tokens compile to the same runs**, wherever the groups begin. -/
theorem ofTokens_regroup (hk : 0 ≤ k) (hs : s.Regular theme) (ts : List Token) :
    Run.ofTokens theme (s.regroup k) ts
      = (Run.ofTokens theme s ts).map (List.map (Run.recast (Entry.regroup k))) := by
  induction ts generalizing s with
  | nil => rfl
  | cons tok ts ih =>
    rcases literal_or_style tok with ⟨t, rfl⟩ | hstyle
    · show (do return .text t :: (← Run.ofTokens theme (s.regroup k) ts) :
        Except Fault (List Run)) = (do return .text t :: (← Run.ofTokens theme s ts) :
          Except Fault (List Run)).map _
      rw [ih hs]
      cases Run.ofTokens theme s ts <;> rfl
    · have hmoved := apply_regroup hk hs tok
      cases happly : s.apply theme tok with
      | error fault =>
        rw [happly] at hmoved
        rw [ofTokens_error hstyle happly, ofTokens_error hstyle hmoved]
        rfl
      | ok result =>
        obtain ⟨codes, next⟩ := result
        rw [happly] at hmoved
        rw [ofTokens_ok happly, ofTokens_ok hmoved, ih (apply_regular hs happly)]
        cases Run.ofTokens theme next ts <;> rfl

end TermMarkup
