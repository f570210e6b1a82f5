/-
  TermMarkup.Proofs.Units
  ───────────────────────
  THE UNITS OF COMPILED TEXT.  Cutting a text into chunks, and runs into units,
  loses nothing: what is cut is the same sequence of ITEMS, characters and style
  runs, with other borders between them.

    • `chunks_text`, `chunks_cut` — the chunks make up the text, and each holds
      as many characters of its kind as stand together,
    • `ofRuns_items` — the units hold the items of the runs, in their order,
    • `ofRuns_proper` — each unit holds characters of its kind only.
-/
import TermMarkup.Layout

namespace TermMarkup

theorem isBlank_newline : isBlank '\n' = true := by decide

theorem ne_newline_of_ink {c : Char} (h : isBlank c = false) : c ≠ '\n' := by
  rintro rfl
  exact absurd h (by simp [isBlank_newline])

/-! ## §1. Chunks. -/

/-- A chunk as it stands in the text. -/
def Chunk.text : Chunk → Text
  | newline => ['\n']
  | blank t => t
  | ink t => t

theorem cons_text (c : Char) (rest : List Chunk) :
    (Chunk.cons c rest).flatMap Chunk.text = c :: rest.flatMap Chunk.text := by
  unfold Chunk.cons
  split
  · next h =>
    rw [h]
    rfl
  · split
    · split <;> rfl
    · split <;> rfl

theorem chunks_text (t : Text) : t.chunks.flatMap Chunk.text = t := by
  induction t with
  | nil => rfl
  | cons c t ih =>
    show (Chunk.cons c (Text.chunks t)).flatMap Chunk.text = c :: t
    rw [cons_text, ih]

/-- The chunks as a text is cut: characters of one kind, as many as stand together. -/
inductive Chunk.Cut : List Chunk → Prop
  | nil : Cut []
  | newline {rest : List Chunk} : Cut rest → Cut (.newline :: rest)
  | blank {t : Text} {rest : List Chunk} :
      t ≠ [] → (∀ c ∈ t, isBlank c = true ∧ c ≠ '\n') → Cut rest → Cut (.blank t :: rest)
  | ink {t : Text} {rest : List Chunk} :
      t ≠ [] → (∀ c ∈ t, isBlank c = false) → (∀ u, rest.head? ≠ some (.ink u)) → Cut rest →
      Cut (.ink t :: rest)

theorem cons_cut {rest : List Chunk} (h : Chunk.Cut rest) (c : Char) :
    Chunk.Cut (Chunk.cons c rest) := by
  unfold Chunk.cons
  split
  · exact .newline h
  · next hn =>
    split
    · next hb =>
      -- the character joins the blanks that follow, or stands alone before something else
      split
      · next t rest =>
        cases h with
        | blank _ ht hrest =>
          refine .blank (by simp) ?_ hrest
          intro d hd
          rcases List.mem_cons.mp hd with rfl | hd
          · exact ⟨hb, hn⟩
          · exact ht d hd
      · refine .blank (by simp) ?_ h
        intro d hd
        obtain rfl := List.mem_singleton.mp hd
        exact ⟨hb, hn⟩
    · next hb =>
      have hb : isBlank c = false := by simpa using hb
      split
      · next t rest =>
        cases h with
        | ink _ ht hne hrest =>
          refine .ink (by simp) ?_ hne hrest
          intro d hd
          rcases List.mem_cons.mp hd with rfl | hd
          · exact hb
          · exact ht d hd
      · next hne =>
        refine .ink (by simp) ?_ ?_ h
        · intro d hd
          obtain rfl := List.mem_singleton.mp hd
          exact hb
        · intro u hu
          obtain ⟨more, rfl⟩ := List.head?_eq_some_iff.mp hu
          exact hne u more rfl

theorem chunks_cut (t : Text) : Chunk.Cut t.chunks := by
  induction t with
  | nil => exact .nil
  | cons c t ih => exact cons_cut ih c

/-! ## §2. Items. -/

/-- What compiled text consists of. -/
inductive Item where
  | char (c : Char)
  | style (codes : Text) (active : List Entry)
  deriving DecidableEq, Repr

/-- The items of a run. -/
def Run.items : Run → List Item
  | text t => t.map .char
  | style codes active => [.style codes active]

/-- The runs of a unit. -/
def LayoutUnit.runs : LayoutUnit → List Run
  | .newline => [.text ['\n']]
  | .blank t => [.text t]
  | .word parts => parts

/-- The items of several units. -/
def LayoutUnit.items (units : List LayoutUnit) : List Item :=
  (units.flatMap LayoutUnit.runs).flatMap Run.items

theorem flush_append (word : List Run) (units rest : List LayoutUnit) :
    LayoutUnit.flush word units ++ rest = LayoutUnit.flush word (units ++ rest) := by
  cases word <;> rfl

theorem flush_items (word : List Run) (rest : List LayoutUnit) :
    LayoutUnit.items (LayoutUnit.flush word rest)
      = word.flatMap Run.items ++ LayoutUnit.items rest := by
  unfold LayoutUnit.flush
  split
  · next h =>
    rw [List.isEmpty_iff.mp h]
    rfl
  · unfold LayoutUnit.items
    rw [List.flatMap_cons, List.flatMap_append]
    rfl

theorem ofChunks_items (word : List Run) (cs : List Chunk) :
    LayoutUnit.items (LayoutUnit.ofChunks word cs).1
        ++ (LayoutUnit.ofChunks word cs).2.flatMap Run.items
      = word.flatMap Run.items ++ (cs.flatMap Chunk.text).map .char := by
  -- the open word grows with ink, so the statement is for any word
  induction cs generalizing word with
  | nil => simp [LayoutUnit.ofChunks, LayoutUnit.items]
  | cons chunk cs ih =>
    cases chunk with
    | newline =>
      have h := ih []
      show LayoutUnit.items (LayoutUnit.flush word (.newline :: (LayoutUnit.ofChunks [] cs).1))
        ++ (LayoutUnit.ofChunks [] cs).2.flatMap Run.items = _
      rw [flush_items, List.append_assoc]
      show _ ++ (([Item.char '\n'] ++ LayoutUnit.items _) ++ _) = _
      rw [List.append_assoc, h]
      simp [Chunk.text]
    | blank t =>
      have h := ih []
      show LayoutUnit.items (LayoutUnit.flush word (.blank t :: (LayoutUnit.ofChunks [] cs).1))
        ++ (LayoutUnit.ofChunks [] cs).2.flatMap Run.items = _
      rw [flush_items, List.append_assoc]
      show _ ++ ((t.map Item.char ++ LayoutUnit.items _) ++ _) = _
      rw [List.append_assoc, h]
      simp [Chunk.text]
    | ink t =>
      refine (ih (word ++ [.text t])).trans ?_
      simp [Chunk.text, Run.items]

/-- **The units hold the items of the runs, in their order.** -/
theorem ofRuns_items (word rs : List Run) :
    LayoutUnit.items (LayoutUnit.ofRuns word rs) = (word ++ rs).flatMap Run.items := by
  induction rs generalizing word with
  | nil =>
    show LayoutUnit.items (LayoutUnit.flush word []) = _
    rw [flush_items, List.append_nil]
    exact List.append_nil _
  | cons r rs ih =>
    cases r with
    | style codes active =>
      show LayoutUnit.items (LayoutUnit.ofRuns (word ++ [.style codes active]) rs) = _
      rw [ih, List.append_assoc, List.singleton_append]
    | text t =>
      show LayoutUnit.items ((LayoutUnit.ofChunks word t.chunks).1
        ++ LayoutUnit.ofRuns (LayoutUnit.ofChunks word t.chunks).2 rs) = _
      -- the word that the text leaves open is the one that the rest begins with
      have hsplit : ∀ a b : List LayoutUnit,
          LayoutUnit.items (a ++ b) = LayoutUnit.items a ++ LayoutUnit.items b := by
        intro a b
        unfold LayoutUnit.items
        rw [List.flatMap_append, List.flatMap_append]
      rw [hsplit, ih, List.flatMap_append, ← List.append_assoc, ofChunks_items, chunks_text,
        List.flatMap_append, List.flatMap_cons, List.append_assoc]
      rfl

/-- The literal text of an item. -/
def Item.literal : Item → Text
  | char c => [c]
  | style _ _ => []

/-- Runs have the literal text of their items. -/
theorem flatMap_literal_items (rs : List Run) :
    (rs.flatMap Run.items).flatMap Item.literal = rs.flatMap Run.literal := by
  induction rs with
  | nil => rfl
  | cons r rs ih =>
    rw [List.flatMap_cons, List.flatMap_append, ih, List.flatMap_cons]
    cases r with
    | text t =>
      show (t.map Item.char).flatMap Item.literal ++ _ = t ++ _
      rw [List.flatMap_map]
      exact congrArg (· ++ _) (List.flatMap_singleton' t)
    | style codes active => rfl

/-! ## §3. Kinds. -/

/-- The unit holds characters of its kind only. -/
def LayoutUnit.Proper : LayoutUnit → Prop
  | .newline => True
  | .blank t => ∀ c ∈ t, isBlank c = true ∧ c ≠ '\n'
  | .word parts => ∀ r ∈ parts, ∀ c ∈ r.literal, isBlank c = false

theorem flush_proper {word : List Run} {rest : List LayoutUnit}
    (hw : (LayoutUnit.word word).Proper) (hrest : ∀ u ∈ rest, u.Proper) :
    ∀ u ∈ LayoutUnit.flush word rest, u.Proper := by
  unfold LayoutUnit.flush
  split
  · exact hrest
  · intro u hu
    rcases List.mem_cons.mp hu with rfl | hu
    · exact hw
    · exact hrest u hu

theorem proper_append {word : List Run} {r : Run} (hw : (LayoutUnit.word word).Proper)
    (hr : ∀ c ∈ r.literal, isBlank c = false) : (LayoutUnit.word (word ++ [r])).Proper := by
  intro r' hr'
  rcases List.mem_append.mp hr' with hr' | hr'
  · exact hw r' hr'
  · obtain rfl := List.mem_singleton.mp hr'
    exact hr

theorem ofChunks_proper {word : List Run} (hw : (LayoutUnit.word word).Proper) {cs : List Chunk}
    (hcs : Chunk.Cut cs) :
    (∀ u ∈ (LayoutUnit.ofChunks word cs).1, u.Proper)
      ∧ (LayoutUnit.word (LayoutUnit.ofChunks word cs).2).Proper := by
  have hnil : (LayoutUnit.word []).Proper := fun r hr => nomatch hr
  induction hcs generalizing word with
  | nil => exact ⟨fun u hu => (nomatch hu), hw⟩
  | newline _ ih =>
    obtain ⟨hunits, hlast⟩ := ih hnil
    refine ⟨flush_proper hw ?_, hlast⟩
    intro u hu
    rcases List.mem_cons.mp hu with rfl | hu
    · trivial
    · exact hunits u hu
  | blank _ ht _ ih =>
    obtain ⟨hunits, hlast⟩ := ih hnil
    refine ⟨flush_proper hw ?_, hlast⟩
    intro u hu
    rcases List.mem_cons.mp hu with rfl | hu
    · exact ht
    · exact hunits u hu
  | ink _ ht _ _ ih => exact ih (proper_append hw ht)

/-- **Each unit holds characters of its kind only.** -/
theorem ofRuns_proper {word : List Run} (hw : (LayoutUnit.word word).Proper) (rs : List Run) :
    ∀ u ∈ LayoutUnit.ofRuns word rs, u.Proper := by
  induction rs generalizing word with
  | nil => exact flush_proper hw fun u hu => nomatch hu
  | cons r rs ih =>
    cases r with
    | style codes active => exact ih (proper_append hw fun c hc => nomatch hc)
    | text t =>
      obtain ⟨hunits, hlast⟩ := ofChunks_proper hw (chunks_cut t)
      intro u hu
      rcases List.mem_append.mp hu with hu | hu
      · exact hunits u hu
      · exact ih hlast u hu

end TermMarkup
