/-
  TermMarkup.Proofs.Words
  ───────────────────────
  WORDS AND ATOMS, told from the tokens of a text without any layout.  A word is
  a longest run of literal characters without a blank; style tokens may stand
  inside it and part it into literal runs.  An atom is what no line end may
  part: a word, or a grapheme cluster of a literal run if the word is dense.

  Everything about words follows from what a blank and the end of a token do to
  a word that is open.

    • `Token.words`, `Token.atoms` — words and atoms of tokens,
    • `wordsFrom_blank`, `wordsFrom_seam`, `wordsFrom_ink` — an open word,
    • `ofRuns_words` — the word units of compiled tokens are their words,
    • `materialOf_atoms` — the solid material of compiled tokens is their atoms,
    • `atom_ne_nil` — no atom is empty.
-/
import TermMarkup.Proofs.LayoutMoves
import TermMarkup.Proofs.Tokens
import Mathlib.Data.List.ReduceOption

namespace TermMarkup

/-! ## §1. Words and atoms. -/

/-- The symbols of literal text: its characters, and `none` where it ends. -/
def symbolsOf (t : Text) : List (Option Char) := t.map some ++ [none]

/-- A symbol that is a blank. -/
def isGap (symbol : Option Char) : Bool := symbol.any isBlank

/-- The literal runs among symbols: the characters between ends of texts, EMPTY runs left out. -/
def literalRuns (symbols : List (Option Char)) : List Text :=
  ((symbols.splitOnP Option.isNone).map List.reduceOption).filter fun run => !run.isEmpty

/-- The words among symbols, each as the list of its literal runs. -/
def wordsOf (symbols : List (Option Char)) : List (List Text) :=
  ((symbols.splitOnP isGap).map literalRuns).filter fun word => !word.isEmpty

/-- The words of tokens, each as the list of its literal runs. -/
def Token.words (ts : List Token) : List (List Text) :=
  wordsOf (ts.flatMap fun tok => symbolsOf tok.plain)

/-- What no line end may part of a word: all of it, or its clusters if it is dense. -/
def atomsOf (threshold : Int) (word : List Text) : List Text :=
  if threshold < Text.width word.flatten then word.flatMap Text.clusters else [word.flatten]

/-- The atoms of tokens. -/
def Token.atoms (threshold : Int) (ts : List Token) : List Text :=
  (Token.words ts).flatMap (atomsOf threshold)

/-! ## §2. Literal runs. -/

/-- A text that can be a literal run of a word. -/
def Text.IsInk (t : Text) : Prop := t ≠ [] ∧ ∀ c ∈ t, isBlank c = false

theorem literalRuns_append_none (a b : List (Option Char)) :
    literalRuns (a ++ none :: b) = literalRuns a ++ literalRuns b := by
  unfold literalRuns
  rw [List.splitOnP_append_cons a b rfl, List.map_append, List.filter_append]

theorem literalRuns_nil : literalRuns [] = [] := by
  unfold literalRuns
  rw [List.splitOnP_nil]
  rfl

theorem literalRuns_map_some {t : Text} (ht : t ≠ []) : literalRuns (t.map some) = [t] := by
  have hnone : ∀ symbol ∈ t.map some, Option.isNone symbol = false := by
    intro symbol h
    obtain ⟨c, -, rfl⟩ := List.mem_map.mp h
    rfl
  have hsome : (t.map some).reduceOption = t := by
    unfold List.reduceOption
    rw [List.filterMap_map]
    exact List.filterMap_some
  unfold literalRuns
  rw [List.splitOnP_eq_singleton hnone, List.map_singleton, hsome]
  exact List.filter_cons_of_pos (by simpa using ht)

theorem isInk_append {runs : List Text} (hruns : ∀ t ∈ runs, t.IsInk) {t : Text} (ht : t.IsInk) :
    ∀ u ∈ runs ++ [t], u.IsInk := by
  intro u hu
  rcases List.mem_append.mp hu with hu | hu
  · exact hruns u hu
  · obtain rfl := List.mem_singleton.mp hu
    exact ht

/-- The symbols of the literal runs of an open word. -/
def seamed (runs : List Text) : List (Option Char) := runs.flatMap symbolsOf

theorem seamed_append_singleton (runs : List Text) (t : Text) :
    seamed (runs ++ [t]) = seamed runs ++ symbolsOf t := by
  unfold seamed
  rw [List.flatMap_append, List.flatMap_singleton]

theorem literalRuns_seamed {runs : List Text} (hruns : ∀ t ∈ runs, t.IsInk)
    (rest : List (Option Char)) : literalRuns (seamed runs ++ rest) = runs ++ literalRuns rest := by
  induction runs with
  | nil => rfl
  | cons t runs ih =>
    have ht := (hruns t List.mem_cons_self).1
    have hrest := ih fun u hu => hruns u (List.mem_cons_of_mem _ hu)
    show literalRuns ((t.map some ++ [none] ++ seamed runs) ++ rest) = _
    rw [List.append_assoc, List.append_assoc, List.singleton_append, literalRuns_append_none, hrest,
      literalRuns_map_some ht]
    rfl

theorem not_isGap_map_some {t : Text} (ht : ∀ c ∈ t, isBlank c = false) :
    ∀ symbol ∈ t.map some, isGap symbol = false := by
  intro symbol h
  obtain ⟨c, hc, rfl⟩ := List.mem_map.mp h
  exact ht c hc

theorem not_isGap_seamed {runs : List Text} (hruns : ∀ t ∈ runs, t.IsInk) :
    ∀ symbol ∈ seamed runs, isGap symbol = false := by
  intro symbol h
  obtain ⟨t, ht, h⟩ := List.mem_flatMap.mp h
  rcases List.mem_append.mp h with h | h
  · exact not_isGap_map_some (hruns t ht).2 symbol h
  · obtain rfl := List.mem_singleton.mp h
    rfl

/-! ## §3. An open word. -/

/-- **Words are cut at blanks.** -/
theorem wordsOf_append_blank {c : Char} (hc : isBlank c = true) (a b : List (Option Char)) :
    wordsOf (a ++ some c :: b) = wordsOf a ++ wordsOf b := by
  unfold wordsOf
  rw [List.splitOnP_append_cons a b (show isGap (some c) = true from hc), List.map_append,
    List.filter_append]

/-- Symbols without a blank are at most one word. -/
theorem wordsOf_of_no_gap {symbols : List (Option Char)}
    (h : ∀ symbol ∈ symbols, isGap symbol = false) :
    wordsOf symbols = [literalRuns symbols].filter fun word => !word.isEmpty := by
  unfold wordsOf
  rw [List.splitOnP_eq_singleton h, List.map_singleton]

/-- Two starts of a word that make the same literal runs, whatever follows, make the same words. -/
theorem wordsOf_congr {a b : List (Option Char)} (ha : ∀ symbol ∈ a, isGap symbol = false)
    (hb : ∀ symbol ∈ b, isGap symbol = false)
    (h : ∀ rest, literalRuns (a ++ rest) = literalRuns (b ++ rest)) (rest : List (Option Char)) :
    wordsOf (a ++ rest) = wordsOf (b ++ rest) := by
  have hnil := h []
  rw [List.append_nil, List.append_nil] at hnil
  -- up to the first blank the symbols join both starts; behind it both are the same
  induction rest generalizing a b with
  | nil =>
    rw [List.append_nil, List.append_nil, wordsOf_of_no_gap ha, wordsOf_of_no_gap hb, hnil]
  | cons symbol rest ih =>
    by_cases hs : isGap symbol = true
    · cases symbol with
      | none => exact nomatch hs
      | some c =>
        rw [wordsOf_append_blank hs, wordsOf_append_blank hs, wordsOf_of_no_gap ha,
          wordsOf_of_no_gap hb, hnil]
    · have hs : isGap symbol = false := by simpa using hs
      have hone : ∀ x : List (Option Char), x ++ symbol :: rest = (x ++ [symbol]) ++ rest := by
        simp
      have hext : ∀ x : List (Option Char), (∀ y ∈ x, isGap y = false) →
          ∀ y ∈ x ++ [symbol], isGap y = false := by
        intro x hx y hy
        rcases List.mem_append.mp hy with hy | hy
        · exact hx y hy
        · obtain rfl := List.mem_singleton.mp hy
          exact hs
      rw [hone a, hone b]
      refine ih (hext a ha) (hext b hb) (fun more => ?_) (h [symbol])
      rw [List.append_assoc, List.append_assoc]
      exact h _

/-- The words among symbols, if a word with the given literal runs is open before them. -/
def wordsFrom (runs : List Text) (symbols : List (Option Char)) : List (List Text) :=
  wordsOf (seamed runs ++ symbols)

/-- The word with the given literal runs, if there are any. -/
def closeWord (runs : List Text) : List (List Text) := [runs].filter fun word => !word.isEmpty

variable {runs : List Text}

theorem wordsFrom_nil (hruns : ∀ t ∈ runs, t.IsInk) : wordsFrom runs [] = closeWord runs := by
  unfold wordsFrom
  have h := literalRuns_seamed hruns []
  rw [List.append_nil] at h ⊢
  rw [wordsOf_of_no_gap (not_isGap_seamed hruns), h, literalRuns_nil, List.append_nil]
  rfl

/-- A blank closes the open word. -/
theorem wordsFrom_blank (hruns : ∀ t ∈ runs, t.IsInk) {c : Char} (hc : isBlank c = true)
    (rest : List (Option Char)) :
    wordsFrom runs (some c :: rest) = closeWord runs ++ wordsFrom [] rest := by
  have hnil := wordsFrom_nil hruns
  unfold wordsFrom at hnil ⊢
  rw [List.append_nil] at hnil
  rw [wordsOf_append_blank hc, hnil]
  rfl

theorem wordsFrom_blanks {t : Text} (ht : ∀ c ∈ t, isBlank c = true)
    (rest : List (Option Char)) : wordsFrom [] (t.map some ++ rest) = wordsFrom [] rest := by
  induction t with
  | nil => rfl
  | cons c t ih =>
    rw [List.map_cons, List.cons_append,
      wordsFrom_blank (by simp) (ht c List.mem_cons_self), ih fun d hd =>
        ht d (List.mem_cons_of_mem _ hd)]
    rfl

/-- The end of a text leaves the open word open. -/
theorem wordsFrom_seam (hruns : ∀ t ∈ runs, t.IsInk) (rest : List (Option Char)) :
    wordsFrom runs (none :: rest) = wordsFrom runs rest := by
  unfold wordsFrom
  have hone : seamed runs ++ none :: rest = (seamed runs ++ [none]) ++ rest := by simp
  rw [hone]
  refine wordsOf_congr ?_ (not_isGap_seamed hruns) (fun more => ?_) rest
  · intro symbol h
    rcases List.mem_append.mp h with h | h
    · exact not_isGap_seamed hruns symbol h
    · obtain rfl := List.mem_singleton.mp h
      rfl
  · rw [List.append_assoc, literalRuns_seamed hruns, literalRuns_seamed hruns,
      List.singleton_append]
    exact congrArg (runs ++ ·) (literalRuns_append_none [] more)

/-- Ink, up to a blank or the end of its text, is one more literal run of the open word. -/
theorem wordsFrom_ink (hruns : ∀ t ∈ runs, t.IsInk) {t : Text} (ht : t.IsInk)
    {symbols : List (Option Char)}
    (h : symbols.head? = some none ∨ ∃ c, symbols.head? = some (some c) ∧ isBlank c = true) :
    wordsFrom runs (t.map some ++ symbols) = wordsFrom (runs ++ [t]) symbols := by
  have hruns' := isInk_append hruns ht
  rcases h with h | ⟨c, h, hc⟩
  · -- the text ends: this is the seam that the run would have
    obtain ⟨rest, rfl⟩ := List.head?_eq_some_iff.mp h
    rw [wordsFrom_seam hruns']
    unfold wordsFrom
    rw [seamed_append_singleton]
    unfold symbolsOf
    simp
  · -- a blank follows: it closes the word with or without a seam before it
    obtain ⟨rest, rfl⟩ := List.head?_eq_some_iff.mp h
    have hgap : ∀ symbol ∈ seamed runs ++ t.map some, isGap symbol = false := by
      intro symbol hs
      rcases List.mem_append.mp hs with hs | hs
      · exact not_isGap_seamed hruns symbol hs
      · exact not_isGap_map_some ht.2 symbol hs
    rw [wordsFrom_blank hruns' hc]
    unfold wordsFrom
    rw [← List.append_assoc, wordsOf_append_blank hc, wordsOf_of_no_gap hgap,
      literalRuns_seamed hruns, literalRuns_map_some ht.1]
    rfl

/-! ## §4. Words of units. -/

/-- The texts among runs. -/
def textsOf (parts : List Run) : List Text := (parts.filter Run.isText).map Run.literal

theorem nil_isInk : ∀ t ∈ textsOf [], t.IsInk := fun _ ht => nomatch ht

/-- The word of a unit, if it has text. -/
def LayoutUnit.words : LayoutUnit → List (List Text)
  | .word parts => closeWord (textsOf parts)
  | _ => []

theorem textsOf_append (parts parts' : List Run) :
    textsOf (parts ++ parts') = textsOf parts ++ textsOf parts' := by
  unfold textsOf
  rw [List.filter_append, List.map_append]

theorem textsOf_append_text (parts : List Run) (t : Text) :
    textsOf (parts ++ [.text t]) = textsOf parts ++ [t] :=
  textsOf_append parts [.text t]

theorem textsOf_append_style (parts : List Run) (codes : Text) (active : List Entry) :
    textsOf (parts ++ [.style codes active]) = textsOf parts :=
  (textsOf_append parts [.style codes active]).trans (List.append_nil _)

theorem textsOf_silent {parts : List Run} (h : parts.any Run.isText = false) :
    textsOf parts = [] := by
  unfold textsOf
  rw [List.filter_eq_nil_iff.mpr fun r hr => by simpa using List.any_eq_false.mp h r hr]
  rfl

theorem flush_words (parts : List Run) (rest : List LayoutUnit) :
    (LayoutUnit.flush parts rest).flatMap LayoutUnit.words
      = closeWord (textsOf parts) ++ rest.flatMap LayoutUnit.words := by
  unfold LayoutUnit.flush
  split
  · next h =>
    rw [List.isEmpty_iff.mp h]
    rfl
  · rw [List.flatMap_cons]
    rfl

/-- What follows ink in a text begins with a blank, if anything does. -/
theorem head_after_ink {cs : List Chunk} (hcs : Chunk.Cut cs)
    (hne : ∀ t, cs.head? ≠ some (.ink t)) (rest : List (Option Char)) :
    ((cs.flatMap Chunk.text).map some ++ none :: rest).head? = some none
      ∨ ∃ c, ((cs.flatMap Chunk.text).map some ++ none :: rest).head? = some (some c)
        ∧ isBlank c = true := by
  cases hcs with
  | nil => exact .inl rfl
  | newline _ => exact .inr ⟨'\n', rfl, isBlank_newline⟩
  | @blank t _ hnil ht _ =>
    cases t with
    | nil => exact absurd rfl hnil
    | cons c t => exact .inr ⟨c, rfl, (ht c List.mem_cons_self).1⟩
  | ink _ _ _ _ => exact absurd rfl (hne _)

theorem ofChunks_words {cs : List Chunk} (hcs : Chunk.Cut cs) {word : List Run}
    (hword : ∀ t ∈ textsOf word, t.IsInk) (rest : List (Option Char)) :
    (LayoutUnit.ofChunks word cs).1.flatMap LayoutUnit.words
        ++ wordsFrom (textsOf (LayoutUnit.ofChunks word cs).2) rest
      = wordsFrom (textsOf word) ((cs.flatMap Chunk.text).map some ++ none :: rest) := by
  -- on the chunks: a blank closes the open word, ink joins it
  induction hcs generalizing word with
  | nil => exact (wordsFrom_seam hword rest).symm
  | @newline cs _ ih =>
    have h := ih nil_isInk
    show (LayoutUnit.flush word (.newline :: (LayoutUnit.ofChunks [] cs).1)).flatMap _
      ++ wordsFrom (textsOf (LayoutUnit.ofChunks [] cs).2) rest
      = wordsFrom (textsOf word) (some '\n' :: ((cs.flatMap Chunk.text).map some ++ none :: rest))
    rw [flush_words, wordsFrom_blank hword isBlank_newline, List.append_assoc]
    exact congrArg (closeWord (textsOf word) ++ ·) h
  | @blank t cs hne ht _ ih =>
    have h := ih nil_isInk
    cases t with
    | nil => exact absurd rfl hne
    | cons c t =>
      show (LayoutUnit.flush word (.blank (c :: t) :: (LayoutUnit.ofChunks [] cs).1)).flatMap _
        ++ wordsFrom (textsOf (LayoutUnit.ofChunks [] cs).2) rest
        = wordsFrom (textsOf word)
          (some c :: ((t ++ cs.flatMap Chunk.text).map some ++ none :: rest))
      rw [flush_words, wordsFrom_blank hword (ht c List.mem_cons_self).1, List.append_assoc,
        List.map_append, List.append_assoc,
        wordsFrom_blanks fun d hd => (ht d (List.mem_cons_of_mem _ hd)).1]
      exact congrArg (closeWord (textsOf word) ++ ·) h
  | @ink t cs hne ht hhead hrest ih =>
    have hword' : ∀ u ∈ textsOf (word ++ [.text t]), u.IsInk := by
      rw [textsOf_append_text]
      exact isInk_append hword ⟨hne, ht⟩
    have h := ih hword'
    rw [textsOf_append_text, ← wordsFrom_ink hword ⟨hne, ht⟩ (head_after_ink hrest hhead rest)] at h
    refine h.trans ?_
    show _ = wordsFrom _ ((t ++ cs.flatMap Chunk.text).map some ++ none :: rest)
    rw [List.map_append, List.append_assoc]

theorem ofChunks_isInk {cs : List Chunk} (hcs : Chunk.Cut cs) {word : List Run}
    (hword : ∀ t ∈ textsOf word, t.IsInk) :
    ∀ t ∈ textsOf (LayoutUnit.ofChunks word cs).2, t.IsInk := by
  induction hcs generalizing word with
  | nil => exact hword
  | newline _ ih => exact ih nil_isInk
  | blank _ _ _ ih => exact ih nil_isInk
  | @ink t cs hne ht _ _ ih =>
    have hword' : ∀ u ∈ textsOf (word ++ [.text t]), u.IsInk := by
      rw [textsOf_append_text]
      exact isInk_append hword ⟨hne, ht⟩
    exact ih hword'

/-- **The units of runs hold the words of their texts.** -/
theorem ofRuns_words {word : List Run} (hword : ∀ t ∈ textsOf word, t.IsInk) (rs : List Run) :
    (LayoutUnit.ofRuns word rs).flatMap LayoutUnit.words
      = wordsFrom (textsOf word) (rs.flatMap fun r => symbolsOf r.literal) := by
  induction rs generalizing word with
  | nil =>
    show (LayoutUnit.flush word []).flatMap LayoutUnit.words = wordsFrom _ []
    rw [flush_words, wordsFrom_nil hword]
    exact List.append_nil _
  | cons r rs ih =>
    rw [List.flatMap_cons]
    cases r with
    | style codes active =>
      have hsame := textsOf_append_style word codes active
      show (LayoutUnit.ofRuns (word ++ [.style codes active]) rs).flatMap LayoutUnit.words
        = wordsFrom _ (none :: rs.flatMap fun r => symbolsOf r.literal)
      rw [ih (hsame ▸ hword), hsame, wordsFrom_seam hword]
    | text t =>
      have hwords := ofChunks_words (chunks_cut t) hword (rs.flatMap fun r => symbolsOf r.literal)
      rw [chunks_text] at hwords
      show ((LayoutUnit.ofChunks word t.chunks).1
        ++ LayoutUnit.ofRuns (LayoutUnit.ofChunks word t.chunks).2 rs).flatMap LayoutUnit.words
        = wordsFrom _ ((t.map some ++ [none]) ++ _)
      rw [List.flatMap_append, ih (ofChunks_isInk (chunks_cut t) hword), hwords, List.append_assoc]
      rfl

/-! ## §5. Atoms of material. -/

/-- The atom of a piece of material, if it has text that stays on one line. -/
def Material.atoms : Material → List Text
  | solid parts => [parts.flatMap Run.literal]
  | _ => []

theorem runsWidth_eq (parts : List Run) :
    runsWidth parts = Text.width (parts.flatMap Run.literal) := by
  induction parts with
  | nil => rfl
  | cons r parts ih =>
    rw [List.flatMap_cons, Text.width_append, ← ih]
    rfl

theorem runsWidth_append (rs rs' : List Run) :
    runsWidth (rs ++ rs') = runsWidth rs + runsWidth rs' := by
  rw [runsWidth_eq, runsWidth_eq, runsWidth_eq, List.flatMap_append, Text.width_append]

theorem flatten_textsOf (parts : List Run) :
    (textsOf parts).flatten = parts.flatMap Run.literal := by
  induction parts with
  | nil => rfl
  | cons r parts ih =>
    rw [List.flatMap_cons, ← ih]
    cases r with
    | text t => rfl
    | style codes active => rfl

theorem loose_atoms (parts : List Run) :
    (parts.flatMap Run.loose).flatMap Material.atoms = (textsOf parts).flatMap Text.clusters := by
  induction parts with
  | nil => rfl
  | cons r parts ih =>
    rw [List.flatMap_cons, List.flatMap_append, ih]
    cases r with
    | style codes active => rfl
    | text t =>
      show ((Text.clusters t).map fun cluster => Material.solid [.text cluster]).flatMap
        Material.atoms ++ _ = Text.clusters t ++ _
      have hone : ∀ cluster : Text, [Run.text cluster].flatMap Run.literal = cluster :=
        fun cluster => List.append_nil cluster
      rw [List.flatMap_map]
      refine congrArg (· ++ _) ?_
      show (Text.clusters t).flatMap (fun cluster => [[Run.text cluster].flatMap Run.literal]) = _
      simp only [hone]
      exact List.flatMap_singleton' _

/-- The atoms of a unit are those of its word. -/
theorem material_atoms (threshold : Int) (u : LayoutUnit) :
    (u.material threshold).flatMap Material.atoms = u.words.flatMap (atomsOf threshold) := by
  cases u with
  | newline => rfl
  | blank t => rfl
  | word parts =>
    unfold LayoutUnit.material
    dsimp only
    split
    · next hstyles =>
      have hnone := textsOf_silent ((Bool.not_eq_true' _).mp hstyles)
      show _ = (closeWord (textsOf parts)).flatMap (atomsOf threshold)
      rw [hnone]
      refine List.flatMap_eq_nil_iff.mpr fun w hw => ?_
      obtain ⟨r, -, rfl⟩ := List.mem_map.mp hw
      cases r <;> rfl
    · next htext =>
      have hsome : (textsOf parts).isEmpty = false := by
        obtain ⟨r, hr, htext⟩ := List.any_eq_true.mp (by simpa using htext)
        unfold textsOf
        simp only [List.isEmpty_eq_false_iff, ne_eq, List.map_eq_nil_iff,
          List.filter_eq_nil_iff, not_forall]
        exact ⟨r, hr, by simpa using htext⟩
      show _ = (closeWord (textsOf parts)).flatMap (atomsOf threshold)
      have hword : closeWord (textsOf parts) = [textsOf parts] :=
        List.filter_cons_of_pos (by simp [hsome])
      rw [hword, List.flatMap_singleton]
      unfold atomsOf
      rw [flatten_textsOf, ← runsWidth_eq]
      split
      · exact loose_atoms parts
      · rfl

/-- Compiling tokens keeps the symbols of their literal text. -/
theorem ofTokens_symbols {theme : Theme} {ts : List Token} {rs : List Run} {s : Stack}
    (h : Run.ofTokens theme s ts = .ok rs) :
    (rs.flatMap fun r => symbolsOf r.literal) = ts.flatMap fun tok => symbolsOf tok.plain := by
  induction ts generalizing s rs with
  | nil =>
    obtain rfl := Except.ok.inj h
    rfl
  | cons tok ts ih =>
    rcases ofTokens_cons h with
      ⟨u, rest, rfl, hrest, rfl⟩ | ⟨codes, next, rest, hplain, -, hrest, rfl⟩
    · rw [List.flatMap_cons, List.flatMap_cons, ih hrest]
      rfl
    · rw [List.flatMap_cons, List.flatMap_cons, ih hrest, hplain]
      rfl

/-- **The atoms of the material are told by the symbols of the text.** -/
theorem materialOf_atoms_of_symbols {ts : List Token} {rs : List Run}
    (h : (rs.flatMap fun r => symbolsOf r.literal) = ts.flatMap fun tok => symbolsOf tok.plain)
    (threshold : Int) :
    (materialOf threshold rs).flatMap Material.atoms = Token.atoms threshold ts := by
  have hwords := ofRuns_words nil_isInk rs
  rw [h] at hwords
  have hwords : (LayoutUnit.ofRuns [] rs).flatMap LayoutUnit.words = Token.words ts := hwords
  unfold materialOf Token.atoms
  rw [List.flatMap_assoc, ← hwords, List.flatMap_assoc]
  exact List.flatMap_congr fun u _ => material_atoms threshold u

/-- **The atoms of the material are the atoms of the tokens.** -/
theorem materialOf_atoms {theme : Theme} {ts : List Token} {rs : List Run} {s : Stack}
    (h : Run.ofTokens theme s ts = .ok rs) (threshold : Int) :
    (materialOf threshold rs).flatMap Material.atoms = Token.atoms threshold ts :=
  materialOf_atoms_of_symbols (ofTokens_symbols h) threshold

/-! ## §6. Nothing is empty. -/

theorem clustersAfter_ne_nil (state : ClusterState) (t : Text) :
    ∀ cluster ∈ (clustersAfter state t).2, cluster ≠ [] := by
  induction t generalizing state with
  | nil => exact fun cluster h => nomatch h
  | cons c t ih =>
    have hrest := ih (state.step (breakClass c)).2
    intro cluster h
    unfold clustersAfter at h
    dsimp only at h
    split at h
    · rcases List.mem_cons.mp h with rfl | h
      · exact List.cons_ne_nil _ _
      · exact hrest cluster h
    · exact hrest cluster h

theorem cluster_ne_nil {t cluster : Text} (h : cluster ∈ Text.clusters t) : cluster ≠ [] := by
  cases t with
  | nil => exact nomatch h
  | cons c t =>
    rcases List.mem_cons.mp h with rfl | h
    · exact List.cons_ne_nil _ _
    · exact clustersAfter_ne_nil _ t cluster h

/-- A word has literal runs, and none of them is empty. -/
theorem word_ne_nil {symbols : List (Option Char)} {word : List Text} (h : word ∈ wordsOf symbols) :
    word ≠ [] ∧ ∀ run ∈ word, run ≠ [] := by
  obtain ⟨hword, hne⟩ := List.mem_filter.mp h
  obtain ⟨part, -, rfl⟩ := List.mem_map.mp hword
  refine ⟨by simpa using hne, fun run hrun => ?_⟩
  have hne := (List.mem_filter.mp hrun).2
  simpa using hne

/-- **No atom is empty.** -/
theorem atom_ne_nil {threshold : Int} {ts : List Token} {atom : Text}
    (h : atom ∈ Token.atoms threshold ts) : atom ≠ [] := by
  obtain ⟨word, hword, h⟩ := List.mem_flatMap.mp h
  obtain ⟨hne, hruns⟩ := word_ne_nil hword
  unfold atomsOf at h
  split at h
  · obtain ⟨run, -, h⟩ := List.mem_flatMap.mp h
    exact cluster_ne_nil h
  · obtain rfl := List.mem_singleton.mp h
    obtain ⟨run, rest, rfl⟩ := List.exists_cons_of_ne_nil hne
    have hrun := hruns run List.mem_cons_self
    rw [List.flatten_cons]
    exact fun hnil => hrun (List.append_eq_nil_iff.mp hnil).1

/-- No text in a word unit is empty. -/
theorem unit_text_ne_nil {rs parts : List Run} (h : LayoutUnit.word parts ∈ LayoutUnit.ofRuns [] rs) :
    ∀ t ∈ textsOf parts, t ≠ [] := by
  intro t ht
  have hword : textsOf parts ∈ (LayoutUnit.ofRuns [] rs).flatMap LayoutUnit.words := by
    refine List.mem_flatMap.mpr ⟨_, h, List.mem_filter.mpr ⟨List.mem_singleton.mpr rfl, ?_⟩⟩
    simpa using List.ne_nil_of_mem ht
  rw [ofRuns_words nil_isInk] at hword
  exact (word_ne_nil hword).2 t ht

end TermMarkup
