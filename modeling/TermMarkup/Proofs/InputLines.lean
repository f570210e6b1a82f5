/-
  TermMarkup.Proofs.InputLines
  ────────────────────────────
  THE LINES OF A TEXT AND THE BLANKS AT THEIR ENDS, told from the tokens of the
  text without any layout.  Style tokens may stand between the blanks behind the
  last word of a line and part them into literal runs, and a layout treats each
  run by itself, so the runs are kept apart here too.

  Symbols are read one after the other, with the blank run that is open carried
  along; units are read in the same way, and both readings agree.

    • `InputLine`, `Token.inputLines` — a line and the runs of blanks at its end,
    • `inputLines_text`, `inputLines_trailing` — what they are in the text,
    • `readLines_eq` — the lines of symbols are read symbol by symbol,
    • `ofRuns_lines` — the units of runs are read as their symbols are,
    • `unitLines_eq` — the lines of compiled tokens.
-/
import TermMarkup.Proofs.Separation
import Mathlib.Data.List.Chain
import Mathlib.Data.List.DropRight

namespace TermMarkup

/-! ## §1. Lines of symbols. -/

/-- A line of a text: its characters, and the literal runs of the blanks behind its last word. -/
structure InputLine where
  text : Text
  trailing : List Text
  deriving DecidableEq, Repr

namespace InputLine

/-- The empty line. -/
def empty : InputLine := ⟨[], []⟩

/-- The line of symbols without a newline. -/
def ofSymbols (symbols : List (Option Char)) : InputLine :=
  ⟨symbols.reduceOption, literalRuns (symbols.rtakeWhile fun symbol => symbol.all isBlank)⟩

end InputLine

/-- The lines of symbols. -/
def symbolLines (symbols : List (Option Char)) : List InputLine :=
  (symbols.splitOnP (· == some '\n')).map InputLine.ofSymbols

/-- The lines of tokens. -/
def Token.inputLines (ts : List Token) : List InputLine :=
  symbolLines (ts.flatMap fun tok => symbolsOf tok.plain)

theorem flatten_literalRuns (symbols : List (Option Char)) :
    (literalRuns symbols).flatten = symbols.reduceOption := by
  unfold literalRuns
  rw [List.flatten_filter_not_isEmpty]
  induction symbols with
  | nil => rfl
  | cons symbol rest ih =>
    rw [List.splitOnP_cons_eq_if_modifyHead]
    cases symbol with
    | none => exact ih
    | some c =>
      -- the character joins the first run, of which there is always one
      obtain ⟨first, more, hcut⟩ :=
        List.exists_cons_of_ne_nil (List.splitOnP_ne_nil Option.isNone rest)
      rw [hcut] at ih ⊢
      rw [List.reduceOption_cons_of_some, ← ih]
      rfl

/-- The lines have the characters of the lines of the literal text. -/
theorem symbolLines_text (symbols : List (Option Char)) :
    (symbolLines symbols).map InputLine.text = Text.lines symbols.reduceOption := by
  unfold symbolLines
  rw [List.map_map]
  induction symbols with
  | nil => rfl
  | cons symbol rest ih =>
    obtain ⟨first, more, hcut⟩ :=
      List.exists_cons_of_ne_nil (List.splitOnP_ne_nil (· == some '\n') rest)
    rw [hcut] at ih
    rw [List.splitOnP_cons_eq_if_modifyHead, hcut]
    cases symbol with
    | none => exact ih
    | some c =>
      have hlines : Text.lines rest.reduceOption
          = first.reduceOption :: more.map List.reduceOption := ih.symm
      rw [List.reduceOption_cons_of_some]
      unfold Text.lines Text.fields Text.fieldsBy
      unfold Text.lines Text.fields at hlines
      rw [hlines]
      by_cases hc : c = '\n'
      · simp [hc, InputLine.ofSymbols]
      · simp [hc, InputLine.ofSymbols]

theorem reduceOption_symbolsOf (t : Text) : (symbolsOf t).reduceOption = t := by
  unfold symbolsOf List.reduceOption
  rw [List.filterMap_append, List.filterMap_map]
  exact (List.append_nil _).trans List.filterMap_some

/-- The lines of tokens have the text of the lines without style tokens. -/
theorem inputLines_text (ts : List Token) :
    (Token.inputLines ts).map InputLine.text = Text.lines (ts.flatMap Token.plain) := by
  unfold Token.inputLines
  rw [symbolLines_text]
  refine congrArg Text.lines ?_
  unfold List.reduceOption
  rw [List.filterMap_flatMap]
  exact List.flatMap_congr fun tok _ => reduceOption_symbolsOf tok.plain

/-- The runs at the end of a line make up the blanks behind its last word. -/
theorem ofSymbols_trailing (symbols : List (Option Char)) :
    (InputLine.ofSymbols symbols).trailing.flatten
      = (InputLine.ofSymbols symbols).text.rtakeWhile isBlank := by
  show (literalRuns _).flatten = symbols.reduceOption.rtakeWhile isBlank
  rw [flatten_literalRuns]
  induction symbols using List.reverseRecOn with
  | nil => rfl
  | append_singleton symbols symbol ih =>
    rw [List.reduceOption_append]
    cases symbol with
    | none =>
      rw [List.rtakeWhile_concat_pos _ _ _ rfl, List.reduceOption_append, ih]
      show _ ++ [] = (_ ++ []).rtakeWhile isBlank
      rw [List.append_nil, List.append_nil]
    | some c =>
      show _ = (symbols.reduceOption ++ [c]).rtakeWhile isBlank
      by_cases hc : isBlank c = true
      · rw [List.rtakeWhile_concat_pos _ _ _ hc, List.rtakeWhile_concat_pos _ _ (some c) hc,
          List.reduceOption_append, ih]
        rfl
      · rw [List.rtakeWhile_concat_neg _ _ _ hc, List.rtakeWhile_concat_neg _ _ (some c) hc]
        rfl

theorem inputLines_trailing {ts : List Token} {line : InputLine} (h : line ∈ Token.inputLines ts) :
    line.trailing.flatten = line.text.rtakeWhile isBlank := by
  obtain ⟨symbols, -, rfl⟩ := List.mem_map.mp h
  exact ofSymbols_trailing symbols

/-! ## §2. Symbol by symbol. -/

/-- Ends a run of blanks. -/
def InputLine.close (line : InputLine) (run : Text) : InputLine :=
  ⟨line.text, if run.isEmpty then line.trailing else line.trailing ++ [run]⟩

/-- Reads lines from symbols, when a line has begun and a run of blanks is open at its end. -/
def readLines (line : InputLine) (run : Text) : List (Option Char) → List InputLine
  | [] => [line.close run]
  | none :: rest => readLines (line.close run) [] rest
  | some c :: rest =>
    if c = '\n' then line.close run :: readLines .empty [] rest
    else if isBlank c then readLines ⟨line.text ++ [c], line.trailing⟩ (run ++ [c]) rest
    else readLines ⟨line.text ++ [c], []⟩ [] rest

/-- The symbols in front are what has been read of a line. -/
structure InputLine.Begun (front : List (Option Char)) (line : InputLine) (run : Text) : Prop where
  oneLine : ∀ symbol ∈ front, (symbol == some '\n') = false
  text : front.reduceOption = line.text
  runs : ∀ rest, literalRuns ((front.rtakeWhile fun symbol => symbol.all isBlank) ++ rest)
    = line.trailing ++ literalRuns (run.map some ++ rest)

namespace InputLine.Begun

variable {front : List (Option Char)} {line : InputLine} {run : Text}

theorem nil : Begun [] .empty [] :=
  ⟨fun _ h => (nomatch h), rfl, fun _ => rfl⟩

theorem closed (h : Begun front line run) : ofSymbols front = line.close run := by
  have hruns := h.runs []
  rw [List.append_nil, List.append_nil] at hruns
  unfold ofSymbols close
  rw [h.text, hruns]
  cases run with
  | nil => rw [List.map_nil, literalRuns_nil, List.append_nil]; rfl
  | cons c run => rw [literalRuns_map_some (List.cons_ne_nil c run)]; rfl

theorem append_oneLine (h : Begun front line run) {symbol : Option Char} (hs : symbol ≠ some '\n') :
    ∀ s ∈ front ++ [symbol], (s == some '\n') = false := by
  intro s hmem
  rcases List.mem_append.mp hmem with hmem | hmem
  · exact h.oneLine s hmem
  · rw [List.mem_singleton.mp hmem]
    simpa using hs

theorem seam (h : Begun front line run) : Begun (front ++ [none]) (line.close run) [] := by
  refine ⟨h.append_oneLine (by simp), ?_, fun rest => ?_⟩
  · rw [List.reduceOption_append, h.text]
    exact List.append_nil _
  · rw [List.rtakeWhile_concat_pos _ _ _ rfl, List.append_assoc, List.singleton_append, h.runs, 
      literalRuns_append_none, ← List.append_assoc]
    refine congrArg (· ++ literalRuns rest) ?_
    rw [← h.closed]
    show _ = literalRuns _
    rw [← List.append_nil (front.rtakeWhile _), h.runs, List.append_nil]

theorem blank (h : Begun front line run) {c : Char} (hc : isBlank c = true) (hn : c ≠ '\n') :
    Begun (front ++ [some c]) ⟨line.text ++ [c], line.trailing⟩ (run ++ [c]) := by
  refine ⟨h.append_oneLine (by simpa using hn), ?_, fun rest => ?_⟩
  · rw [List.reduceOption_append, h.text]
    rfl
  · rw [List.rtakeWhile_concat_pos _ _ (some c) hc, List.append_assoc, h.runs, List.map_append,
      List.append_assoc]
    rfl

theorem ink (h : Begun front line run) {c : Char} (hc : ¬isBlank c = true) (hn : c ≠ '\n') :
    Begun (front ++ [some c]) ⟨line.text ++ [c], []⟩ [] := by
  refine ⟨h.append_oneLine (by simpa using hn), ?_, fun rest => ?_⟩
  · rw [List.reduceOption_append, h.text]
    rfl
  · rw [List.rtakeWhile_concat_neg _ _ (some c) hc]
    rfl

end InputLine.Begun

/-- **The lines of symbols can be read symbol by symbol.** -/
theorem readLines_eq {front : List (Option Char)} {line : InputLine} {run : Text}
    (h : InputLine.Begun front line run) (symbols : List (Option Char)) :
    readLines line run symbols = symbolLines (front ++ symbols) := by
  induction symbols generalizing front line run with
  | nil =>
    unfold readLines symbolLines
    rw [List.append_nil, List.splitOnP_eq_singleton h.oneLine, List.map_singleton, h.closed]
  | cons symbol rest ih =>
    have hnext : front ++ symbol :: rest = (front ++ [symbol]) ++ rest := by simp
    unfold readLines
    cases symbol with
    | none =>
      rw [hnext]
      exact ih h.seam
    | some c =>
      dsimp only
      split
      · next hc =>
        subst hc
        rw [ih .nil, ← h.closed]
        unfold symbolLines
        rw [List.splitOnP_append_cons (p := (· == some '\n')) front rest (beq_self_eq_true _),
          List.splitOnP_eq_singleton h.oneLine]
        rfl
      · next hn =>
        rw [hnext]
        split
        · next hc => exact ih (h.blank hc hn)
        · next hc => exact ih (h.ink hc hn)

/-- A run may be ended where no blank would go on with it. -/
theorem readLines_close {symbols : List (Option Char)}
    (hhead : ∀ c, symbols.head? = some (some c) → isBlank c = true → c = '\n') (line : InputLine)
    (run : Text) : readLines line run symbols = readLines (line.close run) [] symbols := by
  cases symbols with
  | nil => rfl
  | cons symbol rest =>
    cases symbol with
    | none => rfl
    | some c =>
      unfold readLines
      by_cases hn : c = '\n'
      · rw [if_pos hn, if_pos hn]
        rfl
      · have hc : ¬isBlank c = true := fun hc => hn (hhead c rfl hc)
        rw [if_neg hn, if_neg hn, if_neg hc, if_neg hc]
        rfl

/-- Blanks go on with the run that is open. -/
theorem readLines_blanks {t : Text} (ht : ∀ c ∈ t, isBlank c = true ∧ c ≠ '\n') (line : InputLine)
    (run : Text) (symbols : List (Option Char)) :
    readLines line run (t.map some ++ symbols)
      = readLines ⟨line.text ++ t, line.trailing⟩ (run ++ t) symbols := by
  induction t generalizing line run with
  | nil =>
    rw [List.append_nil, List.append_nil]
    rfl
  | cons c t ih =>
    obtain ⟨hc, hn⟩ := ht c List.mem_cons_self
    rw [List.map_cons, List.cons_append, readLines, if_neg hn, if_pos hc,
      ih fun d hd => ht d (List.mem_cons_of_mem _ hd), List.append_assoc, List.append_assoc]
    rfl

/-- Ink ends the blanks in front of it. -/
theorem readLines_ink {t : Text} (ht : t.IsInk) (line : InputLine) (run : Text)
    (symbols : List (Option Char)) :
    readLines line run (t.map some ++ symbols) = readLines ⟨line.text ++ t, []⟩ [] symbols := by
  have hmore : ∀ (t : Text) (text : Text), (∀ c ∈ t, isBlank c = false) →
      readLines ⟨text, []⟩ [] (t.map some ++ symbols) = readLines ⟨text ++ t, []⟩ [] symbols := by
    intro t
    induction t with
    | nil =>
      intro text _
      rw [List.append_nil]
      rfl
    | cons c t ih =>
      intro text ht
      have hc := ht c List.mem_cons_self
      rw [List.map_cons, List.cons_append, readLines, if_neg (ne_newline_of_ink hc),
        if_neg (by simp [hc]), ih _ fun d hd => ht d (List.mem_cons_of_mem _ hd), List.append_assoc]
      rfl
  obtain ⟨hne, hall⟩ := ht
  obtain ⟨c, t, rfl⟩ := List.exists_cons_of_ne_nil hne
  have hc := hall c List.mem_cons_self
  rw [List.map_cons, List.cons_append, readLines, if_neg (ne_newline_of_ink hc),
    if_neg (by simp [hc]), hmore t _ fun d hd => hall d (List.mem_cons_of_mem _ hd),
    List.append_assoc]
  rfl

/-! ## §3. Unit by unit. -/

namespace InputLine

/-- Adds the text of a word, if it has any, behind all blanks. -/
def addWord (line : InputLine) (parts : List Run) : InputLine :=
  if parts.any Run.isText then ⟨line.text ++ parts.flatMap Run.literal, []⟩ else line

theorem addWord_style (line : InputLine) (word : List Run) (codes : Text) (active : List Entry) :
    line.addWord (word ++ [Run.style codes active]) = line.addWord word := by
  have hany : (word ++ [Run.style codes active]).any Run.isText = word.any Run.isText := by
    rw [List.any_append]
    exact Bool.or_false _
  have hliteral : (word ++ [Run.style codes active]).flatMap Run.literal
      = word.flatMap Run.literal := by
    rw [List.flatMap_append]
    exact List.append_nil _
  unfold addWord
  rw [hany, hliteral]

theorem addWord_text (line : InputLine) (word : List Run) (t : Text) :
    line.addWord (word ++ [Run.text t]) = ⟨(line.addWord word).text ++ t, []⟩ := by
  have hany : (word ++ [Run.text t]).any Run.isText = true := by
    rw [List.any_append]
    exact Bool.or_true _
  have hliteral : (word ++ [Run.text t]).flatMap Run.literal = word.flatMap Run.literal ++ t := by
    rw [List.flatMap_append, List.flatMap_singleton]
    rfl
  unfold addWord
  rw [hany, hliteral, if_pos rfl]
  cases htext : word.any Run.isText with
  | true => rw [if_pos rfl, List.append_assoc]
  | false =>
    rw [if_neg (by simp), (word_silent htext).2]
    rfl

end InputLine

/-- Reads lines from units, when a line has begun.  A word without text changes nothing. -/
def unitLines (line : InputLine) : List LayoutUnit → List InputLine
  | [] => [line]
  | .newline :: rest => line :: unitLines .empty rest
  | .blank t :: rest => unitLines ⟨line.text ++ t, line.trailing ++ [t]⟩ rest
  | .word parts :: rest => unitLines (line.addWord parts) rest

theorem unitLines_flush (line : InputLine) (word : List Run) (rest : List LayoutUnit) :
    unitLines line (LayoutUnit.flush word rest) = unitLines (line.addWord word) rest := by
  cases word <;> rfl

/-- The chunk is a stretch of blanks. -/
def Chunk.isGap : Chunk → Bool
  | blank _ => true
  | _ => false

/-- Blanks that stand together are one chunk. -/
theorem chunks_apart (t : Text) :
    t.chunks.IsChain fun a b => a.isGap = true → b.isGap = false := by
  induction t with
  | nil => exact .nil
  | cons c t ih =>
    show (Chunk.cons c (Text.chunks t)).IsChain _
    unfold Chunk.cons
    split
    · exact List.isChain_cons.mpr ⟨fun _ _ h => (nomatch h), ih⟩
    · split
      · split
        · next u rest heq =>
          rw [heq] at ih
          exact List.isChain_cons.mpr (List.isChain_cons.mp ih)
        · next hne =>
          refine List.isChain_cons.mpr ⟨fun chunk hchunk _ => ?_, ih⟩
          cases chunk with
          | blank u =>
            obtain ⟨rest, hrest⟩ := List.head?_eq_some_iff.mp hchunk
            exact absurd hrest (hne u rest)
          | newline => rfl
          | ink u => rfl
      · split
        · next u rest heq =>
          rw [heq] at ih
          exact List.isChain_cons.mpr (List.isChain_cons.mp ih)
        · exact List.isChain_cons.mpr ⟨fun _ _ h => (nomatch h), ih⟩

/-- What follows a stretch of blanks in a text does not begin with one. -/
theorem head_after_gap {cs : List Chunk} (hcs : Chunk.Cut cs)
    (hhead : ∀ chunk ∈ cs.head?, chunk.isGap = false) (rest : List (Option Char)) :
    ∀ c, ((cs.flatMap Chunk.text).map some ++ none :: rest).head? = some (some c) →
      isBlank c = true → c = '\n' := by
  intro c hc hblank
  cases hcs with
  | nil => exact nomatch hc
  | newline _ => exact (Option.some.inj (Option.some.inj hc)).symm
  | @blank t _ _ _ _ => exact nomatch hhead (.blank t) rfl
  | @ink t _ hne ht _ _ =>
    obtain ⟨d, t, rfl⟩ := List.exists_cons_of_ne_nil hne
    obtain rfl := Option.some.inj (Option.some.inj hc)
    exact absurd hblank (by simp [ht d List.mem_cons_self])

/-- The lines of the units of a text are read from its symbols. -/
theorem ofChunks_lines {cs : List Chunk} (hcs : Chunk.Cut cs)
    (hapart : cs.IsChain fun a b => a.isGap = true → b.isGap = false) {word : List Run}
    (hword : ∀ t ∈ textsOf word, t.IsInk) {rest : List LayoutUnit} {symbols : List (Option Char)}
    (hrest : ∀ line, unitLines line rest
      = readLines (line.addWord (LayoutUnit.ofChunks word cs).2) [] symbols) (line : InputLine) :
    unitLines line ((LayoutUnit.ofChunks word cs).1 ++ rest)
      = readLines (line.addWord word) [] ((cs.flatMap Chunk.text).map some ++ none :: symbols) := by
  -- on the chunks: blanks and newlines close the open word, ink joins it
  induction hcs generalizing word line with
  | nil => exact hrest line
  | @newline cs _ ih =>
    show unitLines line (LayoutUnit.flush word (.newline :: (LayoutUnit.ofChunks [] cs).1) ++ rest)
      = line.addWord word
        :: readLines .empty [] ((cs.flatMap Chunk.text).map some ++ none :: symbols)
    rw [flush_append, unitLines_flush]
    exact congrArg _ (ih hapart.tail nil_isInk hrest .empty)
  | @blank t cs hne ht hcs ih =>
    obtain ⟨hhead, hapart⟩ := List.isChain_cons.mp hapart
    have hhead := head_after_gap hcs (fun chunk hchunk => hhead chunk hchunk rfl) symbols
    show unitLines line (LayoutUnit.flush word (.blank t :: (LayoutUnit.ofChunks [] cs).1) ++ rest)
      = readLines (line.addWord word) [] ((t ++ cs.flatMap Chunk.text).map some ++ none :: symbols)
    rw [flush_append, unitLines_flush, List.map_append, List.append_assoc, readLines_blanks ht,
      List.nil_append, readLines_close hhead]
    refine (ih hapart nil_isInk hrest _).trans ?_
    unfold InputLine.close
    rw [if_neg (by simpa using hne)]
    rfl
  | @ink t cs hne ht hhead hcs ih =>
    have hword' : ∀ u ∈ textsOf (word ++ [.text t]), u.IsInk := by
      rw [textsOf_append_text]
      exact isInk_append hword ⟨hne, ht⟩
    refine (ih hapart.tail hword' hrest line).trans ?_
    show _ = readLines (line.addWord word) []
      ((t ++ cs.flatMap Chunk.text).map some ++ none :: symbols)
    rw [List.map_append, List.append_assoc, readLines_ink ⟨hne, ht⟩, InputLine.addWord_text]

/-- **The lines of the units of runs are the lines of their symbols.** -/
theorem ofRuns_lines {word : List Run} (hword : ∀ t ∈ textsOf word, t.IsInk) (rs : List Run)
    (line : InputLine) :
    unitLines line (LayoutUnit.ofRuns word rs)
      = readLines (line.addWord word) [] (rs.flatMap fun r => symbolsOf r.literal) := by
  induction rs generalizing word line with
  | nil => exact unitLines_flush line word []
  | cons r rs ih =>
    rw [List.flatMap_cons]
    cases r with
    | style codes active =>
      have hword' : ∀ t ∈ textsOf (word ++ [.style codes active]), t.IsInk := by
        rw [textsOf_append_style]
        exact hword
      refine (ih hword' line).trans ?_
      rw [InputLine.addWord_style]
      rfl
    | text t =>
      have hlines := ofChunks_lines (chunks_cut t) (chunks_apart t) hword
        (ih (ofChunks_isInk (chunks_cut t) hword)) line
      rw [chunks_text] at hlines
      refine hlines.trans ?_
      show _ = readLines _ [] ((t.map some ++ [none]) ++ _)
      rw [List.append_assoc]
      rfl

/-- **The lines of compiled tokens can be read unit by unit.** -/
theorem unitLines_eq {theme : Theme} {ts : List Token} {rs : List Run} {s : Stack}
    (h : Run.ofTokens theme s ts = .ok rs) :
    unitLines .empty (LayoutUnit.ofRuns [] rs) = Token.inputLines ts := by
  rw [ofRuns_lines nil_isInk rs, ofTokens_symbols h]
  exact readLines_eq .nil _

end TermMarkup
