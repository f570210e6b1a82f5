/-
  TermMarkup.Proofs.WordForms
  ───────────────────────────
  THE NORMAL FORM OF STYLE WORDS.  Closing up leaves no blank beside a comma, none
  behind an opening bracket and none in front of a closing one; the four passes do not
  undo each other, because each only brings characters together of which none is a
  blank.  So where a blank parts two style words, the first ends in no comma and opens
  no bracket, and the second begins with no comma and closes none.  Words in this form,
  joined by spaces, leave closing up nothing to do.

    • `closeUpBefore_isChain`, `closeUpAfter_isChain` — what a pass adds and keeps,
    • `closedUp_snug` — a text in which all blanks have been closed up,
    • `ends_of_isChain`, `begins_of_isChain` — the fields of a text, by its neighbours,
    • `NormalWords`, `normalWords_of_snug` — the words of such a text,
    • `styleWords_join` — normal words are the style words of their join,
    • `styleWords_normal` — style words are normal.
-/
import TermMarkup.Proofs.StyleWords

namespace TermMarkup.Text

/-! ## §1. Closing up. -/

section

variable {p : Char → Bool} {R : Char → Char → Prop} {t : Text}

/-- A text begins as before, or with the marked character whose blanks have gone. -/
theorem head?_closeUpBefore {d : Char} (hd : d ∈ (closeUpBefore p t).head?) :
    d ∈ t.head? ∨ p d = true := by
  cases t with
  | nil => exact nomatch hd
  | cons c t =>
    rw [closeUpBefore] at hd
    split at hd
    · exact .inl hd
    · split at hd
      · next hgoes =>
        obtain rfl := Option.some.inj hd
        exact .inr (Bool.and_eq_true_iff.mp hgoes).2
      · exact .inl hd

variable (hp : ∀ c, p c = true → isBlank c = false)
  (hR : ∀ b c, isBlank b = false → isBlank c = false → R b c)
include hp hR

/-- **A pass keeps what neighbours have in common**, if this says nothing of characters that are no
blanks, and leaves no blank directly before a marked character. -/
theorem closeUpBefore_isChain (h : t.IsChain R) :
    (closeUpBefore p t).IsChain fun b c => R b c ∧ (isBlank b = true → p c = false) := by
  induction t with
  | nil => exact .nil
  | cons b t ih =>
    obtain ⟨hnext, ht⟩ := List.isChain_cons.mp h
    have hrest := ih ht
    rw [closeUpBefore]
    cases hcut : closeUpBefore p t with
    | nil => exact .singleton b
    | cons d ds =>
      rw [hcut] at hrest
      dsimp only
      split
      · exact hrest
      · next hstays =>
        refine List.isChain_cons_cons.mpr ⟨⟨?_, fun hb => by simpa [hb] using hstays⟩, hrest⟩
        -- the two were neighbours, or blanks between them have gone
        rcases head?_closeUpBefore (p := p) (t := t) (d := d) (by rw [hcut]; rfl) with hd | hd
        · exact hnext d hd
        · exact hR b d (by simpa [hd] using hstays) (hp d hd)

/-- The pass in the other direction leaves no blank directly after a marked character. -/
theorem closeUpAfter_isChain (h : t.IsChain R) :
    (closeUpAfter p t).IsChain fun b c => R b c ∧ (isBlank c = true → p b = false) := by
  unfold closeUpAfter
  rw [List.isChain_reverse]
  exact closeUpBefore_isChain hp (fun b c hb hc => hR c b hc hb) (List.isChain_reverse.mpr h)

end

/-- **After closing up all neighbours are snug.** -/
theorem closedUp_snug (t : Text) : (closeUpParens (closeUpCommas t)).IsChain Snug := by
  have hmark : ∀ m : Char, isBlank m = false → ∀ c, (c == m) = true → isBlank c = false := by
    intro m hm c hc
    rwa [beq_iff_eq.mp hc]
  have hcomma := hmark ',' (by decide)
  have hany : t.IsChain fun _ _ => True := (List.pairwise_of_forall fun _ _ => trivial).isChain
  -- each pass adds its own fact to those of the passes before it
  have hbehind := closeUpAfter_isChain hcomma (fun _ _ _ _ => trivial) hany
  have hcommas := closeUpBefore_isChain hcomma (fun b c _ hc => ⟨trivial, by simp [hc]⟩) hbehind
  have hopening := closeUpAfter_isChain (hmark '(' (by decide))
    (fun b c hb hc => ⟨⟨trivial, by simp [hc]⟩, by simp [hb]⟩) hcommas
  have hparens := closeUpBefore_isChain (hmark ')' (by decide))
    (fun b c hb hc => ⟨⟨⟨trivial, by simp [hc]⟩, by simp [hb]⟩, by simp [hc]⟩) hopening
  refine hparens.imp fun b c h => ?_
  obtain ⟨⟨⟨⟨-, hafter⟩, hbefore⟩, hopen⟩, hclose⟩ := h
  exact ⟨fun hc => ⟨by simpa using hafter hc, by simpa using hopen hc⟩,
    fun hb => ⟨by simpa using hbefore hb, by simpa using hclose hb⟩⟩

/-! ## §2. Fields by their neighbours. -/

section

variable {p : Char → Bool} {Q : Char → Prop} {t : Text}

/-- The first field begins where the text does. -/
theorem head?_of_fieldsBy {first : Text} {rest : List Text} (hcut : fieldsBy p t = first :: rest)
    {c : Char} (hc : c ∈ first.head?) : c ∈ t.head? := by
  cases t with
  | nil =>
    obtain rfl : [] = first := (List.cons.inj hcut).1
    simp at hc
  | cons d t =>
    obtain ⟨next, others, hrest⟩ := List.exists_cons_of_ne_nil (fieldsBy_ne_nil p t)
    rw [fieldsBy, hrest] at hcut
    split at hcut
    · obtain rfl : [] = first := (List.cons.inj hcut).1
      simp at hc
    · obtain rfl : d :: next = first := (List.cons.inj hcut).1
      exact hc

/-- A text begins with a separator if its first field is empty and not its only one. -/
theorem head?_of_fieldsBy_nil {second : Text} {rest : List Text}
    (hcut : fieldsBy p t = [] :: second :: rest) : ∃ d ∈ t.head?, p d = true := by
  cases t with
  | nil => simp [fieldsBy] at hcut
  | cons d t =>
    obtain ⟨next, others, hrest⟩ := List.exists_cons_of_ne_nil (fieldsBy_ne_nil p t)
    rw [fieldsBy, hrest] at hcut
    split at hcut
    · next hp => exact ⟨d, rfl, hp⟩
    · simp at hcut

/-- What holds in front of every separator holds at the end of every field but the last. -/
theorem ends_of_isChain (h : t.IsChain fun b c => p c = true → Q b) :
    ∀ f ∈ (fieldsBy p t).dropLast, ∀ c ∈ f.getLast?, Q c := by
  induction t with
  | nil => simp [fieldsBy]
  | cons b t ih =>
    obtain ⟨hnext, ht⟩ := List.isChain_cons.mp h
    obtain ⟨first, rest, hcut⟩ := List.exists_cons_of_ne_nil (fieldsBy_ne_nil p t)
    have hrest := ih ht
    rw [fieldsBy, hcut]
    rw [hcut] at hrest
    split
    · intro f hf c hc
      rcases List.mem_cons.mp hf with rfl | hf
      · simp at hc
      · exact hrest f hf c hc
    · cases rest with
      | nil => simp
      | cons second rest =>
        intro f hf c hc
        rcases List.mem_cons.mp hf with rfl | hf
        · cases first with
          | cons d ds => exact hrest _ List.mem_cons_self c hc
          | nil =>
            -- the field is this character alone, so a separator comes next
            obtain rfl := Option.some.inj hc
            obtain ⟨d, hd, hp⟩ := head?_of_fieldsBy_nil hcut
            exact hnext d hd hp
        · exact hrest f (List.mem_cons_of_mem _ hf) c hc

/-- What holds behind every separator holds at the beginning of every field but the first. -/
theorem begins_of_isChain (h : t.IsChain fun b c => p b = true → Q c) :
    ∀ f ∈ (fieldsBy p t).tail, ∀ c ∈ f.head?, Q c := by
  induction t with
  | nil => simp [fieldsBy]
  | cons b t ih =>
    obtain ⟨hnext, ht⟩ := List.isChain_cons.mp h
    obtain ⟨first, rest, hcut⟩ := List.exists_cons_of_ne_nil (fieldsBy_ne_nil p t)
    have hrest := ih ht
    rw [fieldsBy, hcut]
    rw [hcut] at hrest
    split
    · next hb =>
      intro f hf c hc
      rcases List.mem_cons.mp hf with rfl | hf
      · exact hnext c (head?_of_fieldsBy hcut hc) hb
      · exact hrest f hf c hc
    · exact hrest

end

/-! ## §3. Normal words. -/

/-- **Words in normal form.**  They are not empty and hold no blanks; at the end of a word with
another behind it stands no comma and no opening bracket, and at the beginning of a word with
another in front of it no comma and no closing bracket. -/
structure NormalWords (ws : List Text) : Prop where
  solid : ∀ w ∈ ws, w ≠ [] ∧ ∀ c ∈ w, isBlank c = false
  ends : ∀ w ∈ ws.dropLast, ∀ c ∈ w.getLast?, c ≠ ',' ∧ c ≠ '('
  begins : ∀ w ∈ ws.tail, ∀ c ∈ w.head?, c ≠ ',' ∧ c ≠ ')'

theorem dropLast_sublist_dropLast {α : Type} {as bs : List α} (h : as.Sublist bs) :
    as.dropLast.Sublist bs.dropLast := by
  have htail := h.reverse.tail
  rwa [List.tail_reverse, List.tail_reverse, List.reverse_sublist] at htail

/-- **A text in which all neighbours are snug has normal words.** -/
theorem normalWords_of_snug {t : Text} (h : t.IsChain Snug) : NormalWords (words t) := by
  have hwords : (words t).Sublist (fieldsBy isBlank t) := List.filter_sublist
  exact {
    solid := fun w hw => mem_words hw
    ends := fun w hw => ends_of_isChain (h.imp fun _ _ hsnug => hsnug.1) w
      ((dropLast_sublist_dropLast hwords).subset hw)
    begins := fun w hw => begins_of_isChain (h.imp fun _ _ hsnug => hsnug.2) w
      (hwords.tail.subset hw) }

theorem NormalWords.rest {w : Text} {ws : List Text} (h : NormalWords (w :: ws)) :
    NormalWords ws where
  solid := fun u hu => h.solid u (List.mem_cons_of_mem _ hu)
  ends := fun u hu => h.ends u ((dropLast_sublist_dropLast (List.sublist_cons_self w ws)).subset hu)
  begins := fun u hu => h.begins u (List.mem_of_mem_tail hu)

/-! ## §4. Normal words joined. -/

/-- A join begins as its first text, if this is not empty. -/
theorem head?_join {separator u : Text} (hu : u ≠ []) (us : List Text) :
    (join separator (u :: us)).head? = u.head? := by
  cases us with
  | nil => rw [join_singleton]
  | cons v us => rw [join_cons_cons, List.head?_append_of_ne_nil _ hu]

/-- **Normal words are joined snugly**: a space stands where there is nothing to close up. -/
theorem NormalWords.join_snug {ws : List Text} (h : NormalWords ws) :
    (join [' '] ws).IsChain Snug := by
  have hword : ∀ w : Text, (∀ c ∈ w, isBlank c = false) → w.IsChain Snug := by
    intro w hw
    refine List.Pairwise.isChain (List.pairwise_of_forall_mem_list fun b hb c hc => ?_)
    exact ⟨by simp [hw c hc], by simp [hw b hb]⟩
  induction ws with
  | nil => exact .nil
  | cons w ws ih =>
    have hw := h.solid w List.mem_cons_self
    cases ws with
    | nil =>
      rw [join_singleton]
      exact hword w hw.2
    | cons u us =>
      have hu := h.solid u (List.mem_cons_of_mem _ List.mem_cons_self)
      rw [join_cons_cons, List.singleton_append]
      refine List.isChain_append.mpr ⟨hword w hw.2, List.isChain_cons.mpr ⟨?_, ih h.rest⟩, ?_⟩
      · intro c hc
        rw [head?_join hu.1] at hc
        exact ⟨by simp [hu.2 c (List.mem_of_mem_head? hc)],
          fun _ => h.begins u List.mem_cons_self c hc⟩
      · intro b hb c hc
        obtain rfl := Option.some.inj hc
        exact ⟨fun _ => h.ends w List.mem_cons_self b hb,
          by simp [hw.2 b (List.mem_of_getLast? hb)]⟩

theorem words_join {ws : List Text} (h : ∀ w ∈ ws, w ≠ [] ∧ ∀ c ∈ w, isBlank c = false) :
    words (join [' '] ws) = ws := by
  induction ws with
  | nil => rfl
  | cons w ws ih =>
    obtain ⟨⟨hne, hsolid⟩, hws⟩ := List.forall_mem_cons.mp h
    have hone : words w = [w] := by
      unfold words
      rw [fieldsBy_of_none hsolid]
      exact List.filter_cons_of_pos (by simpa using hne)
    cases ws with
    | nil => rw [join_singleton, hone]
    | cons u us =>
      rw [join_cons_cons, List.singleton_append, words_append_blank (by decide), hone, ih hws]
      rfl

/-- **Normal words are the style words of their join.** -/
theorem styleWords_join {ws : List Text} (h : NormalWords ws) :
    styleWords (join [' '] ws) = ws := by
  rw [styleWords_of_snug h.join_snug, words_join h.solid]

/-- **Style words are in normal form.**  Whatever a tag's body holds, its style words are not empty
and hold no blanks; a comma ends at most the last of them and begins at most the first, an opening
bracket ends at most the last and a closing one begins at most the first; and the words, joined by
spaces, have themselves as style words. -/
theorem styleWords_normal (body : Text) :
    NormalWords (styleWords body)
      ∧ styleWords (join [' '] (styleWords body)) = styleWords body := by
  have hnormal : NormalWords (styleWords body) := normalWords_of_snug (closedUp_snug (trim body))
  exact ⟨hnormal, styleWords_join hnormal⟩

/-- A comma that begins the first word, a triple among blanks, and a comma that joins a word to
it. -/
example :
    let ws := [",bold".toList, "(1,2,3),red".toList]
    styleWords " , bold ( 1 ,2,\t3 ) , red ".toList = ws
      ∧ styleWords ",bold (1,2,3),red".toList = ws := by
  decide +kernel

end TermMarkup.Text
