/-
  TermMarkup.Proofs.KeptRuns
  ──────────────────────────
  BLANKS AT THE END OF A LINE are kept as far as they fit, each literal run by
  itself.  So where a run does not fit whole, later ones may still put something
  down, and what is kept then is no start of the blanks any more: they are not
  cut but THINNED OUT.  That happens exactly if, behind the first character that
  does not fit, a later run begins with a narrower one that does.

    • `Text.LongestFitting` — the longest start of a text that fits,
    • `Text.KeptRuns` — such a start of each run, in the room that is left,
    • `Text.Thinned` — a narrower run behind a character that does not fit,
    • `keptRuns_longest_iff` — what is kept of runs is the longest start of all of
      them that fits, unless they are thinned out,
    • `flushPending_keptRuns` — what a layout keeps at the end of a line.
-/
import TermMarkup.Proofs.Fitting
import TermMarkup.Proofs.Rows

namespace TermMarkup

namespace Text

/-! ## §1. The longest start that fits. -/

/-- `kept` is the longest start of `t` that fits in `room` columns; where there is no room, it is
empty. -/
structure LongestFitting (room : Int) (t kept : Text) : Prop where
  start : kept <+: t
  fits : kept ≠ [] → (Text.width kept : Int) ≤ room
  longest : ∀ p, p <+: t → (Text.width p : Int) ≤ room → p <+: kept

/-- What is kept of runs, of each the longest start that fits in the room left by those before. -/
inductive KeptRuns : Int → List Text → Text → Prop
  | nil (room : Int) : KeptRuns room [] []
  | cons {room : Int} {run kept more : Text} {runs : List Text} :
      LongestFitting room run kept → KeptRuns (room - Text.width kept) runs more →
      KeptRuns room (run :: runs) (kept ++ more)

/-- Some character does not fit behind all that stands before it, and a run behind its own begins
with one that does. -/
def Thinned (room : Int) (runs : List Text) : Prop :=
  ∃ (front : List Text) (a : Text) (c : Char) (b : Text) (back : List Text),
    runs = front ++ (a ++ c :: b) :: back
      ∧ room < Text.width (front.flatten ++ a ++ [c])
      ∧ ∃ run ∈ back, ∃ d ∈ run.head?, (Text.width (front.flatten ++ a ++ [d]) : Int) ≤ room

variable {room : Int} {t run kept more : Text} {runs : List Text}

theorem width_le_of_prefix {s t : Text} (h : s <+: t) : Text.width s ≤ Text.width t :=
  width_le_of_sublist h.sublist

/-- A start of two texts is one of the first, or all of it and a start of the second. -/
theorem prefix_append_cases {p s : Text} (h : p <+: s ++ t) :
    p <+: s ∨ ∃ q, q <+: t ∧ p = s ++ q := by
  rcases List.prefix_or_prefix_of_prefix h (List.prefix_append s t) with hp | ⟨q, rfl⟩
  · exact .inl hp
  · exact .inr ⟨q, (List.prefix_append_right_inj s).mp h, rfl⟩

namespace LongestFitting

/-- The character behind the longest start does not fit. -/
theorem lt_width_next {c : Char} {b : Text} (h : LongestFitting room (kept ++ c :: b) kept) :
    room < Text.width (kept ++ [c]) := by
  by_contra hfits
  have hlonger := (h.longest (kept ++ [c]) ⟨b, by simp⟩ (Int.not_lt.mp hfits)).length_le
  rw [List.length_append, List.length_singleton] at hlonger
  omega

/-- Either all is kept, or a character follows that does not fit. -/
theorem cases (h : LongestFitting room t kept) :
    t = kept ∨ ∃ c b, t = kept ++ c :: b ∧ room < Text.width (kept ++ [c]) := by
  obtain ⟨left, rfl⟩ := h.start
  cases left with
  | nil => exact .inl (List.append_nil _)
  | cons c b => exact .inr ⟨c, b, rfl, h.lt_width_next⟩

theorem eq_nil_iff (h : LongestFitting room t kept) :
    kept = [] ↔ ∀ d ∈ t.head?, room < charWidth d := by
  constructor
  · rintro rfl d hd
    obtain ⟨b, rfl⟩ := List.head?_eq_some_iff.mp hd
    have hnext : LongestFitting room ([] ++ d :: b) [] := h
    exact hnext.lt_width_next
  · intro hhead
    cases kept with
    | nil => rfl
    | cons d kept =>
      obtain ⟨left, rfl⟩ := h.start
      have hfits := h.fits (List.cons_ne_nil d kept)
      have hwide := hhead d rfl
      rw [Text.width_cons] at hfits
      omega

/-- A text that is kept whole may be taken off the front. -/
theorem append_iff (h : LongestFitting room run run) (rest : Text) :
    LongestFitting room (run ++ rest) (run ++ more)
      ↔ LongestFitting (room - Text.width run) rest more := by
  have hwidth : ∀ p : Text, (Text.width (run ++ p) : Int) ≤ room
      ↔ (Text.width p : Int) ≤ room - Text.width run := by
    intro p
    rw [Text.width_append]
    omega
  constructor
  · rintro ⟨hstart, hfits, hlongest⟩
    refine ⟨(List.prefix_append_right_inj run).mp hstart, fun hne => ?_, fun p hp hroom => ?_⟩
    · exact (hwidth more).mp (hfits fun hnil => hne (List.append_eq_nil_iff.mp hnil).2)
    · have hall := hlongest (run ++ p) ((List.prefix_append_right_inj run).mpr hp)
        ((hwidth p).mpr hroom)
      exact (List.prefix_append_right_inj run).mp hall
  · rintro ⟨hstart, hfits, hlongest⟩
    refine ⟨(List.prefix_append_right_inj run).mpr hstart, fun hne => ?_, fun p hp hroom => ?_⟩
    · by_cases hmore : more = []
      · subst hmore
        rw [List.append_nil] at hne ⊢
        exact h.fits hne
      · exact (hwidth more).mpr (hfits hmore)
    · rcases prefix_append_cases hp with hp | ⟨q, hq, rfl⟩
      · exact (h.longest p hp hroom).trans (List.prefix_append run more)
      · exact (List.prefix_append_right_inj run).mpr (hlongest q hq ((hwidth q).mp hroom))

/-- A text of which a part does not fit is all that is kept of it and of what follows. -/
theorem append_cut_iff {c : Char} {b : Text} (h : LongestFitting room (kept ++ c :: b) kept)
    (rest : Text) : LongestFitting room (kept ++ c :: b ++ rest) (kept ++ more) ↔ more = [] := by
  have hwide := h.lt_width_next
  have htoo : ∀ p : Text, kept ++ [c] <+: p → room < Text.width p := fun p hp => by
    have hle := width_le_of_prefix hp
    omega
  have hrest : kept ++ c :: b ++ rest = kept ++ [c] ++ (b ++ rest) := by simp
  constructor
  · rintro ⟨hstart, hfits, -⟩
    rw [hrest, List.append_assoc, List.prefix_append_right_inj] at hstart
    cases more with
    | nil => rfl
    | cons d more =>
      -- what is kept more would begin with the character that does not fit
      obtain ⟨rfl, -⟩ := List.cons_prefix_cons.mp hstart
      have hlt := htoo (kept ++ d :: more) ⟨more, by simp⟩
      have hle := hfits (by simp)
      omega
  · rintro rfl
    rw [List.append_nil]
    refine ⟨h.start.trans (List.prefix_append _ _), h.fits, fun p hp hroom => ?_⟩
    rcases prefix_append_cases hp with hp | ⟨q, -, rfl⟩
    · exact h.longest p hp hroom
    · have hlt := htoo (kept ++ c :: b ++ q) ⟨b ++ q, by simp⟩
      omega

end LongestFitting

/-! ## §2. Runs that are kept. -/

/-- Nothing is kept of runs that all begin with a character that does not fit, and only then. -/
theorem KeptRuns.eq_nil_iff (h : KeptRuns room runs kept) :
    kept = [] ↔ ∀ run ∈ runs, ∀ d ∈ run.head?, room < charWidth d := by
  induction h with
  | nil room => simp
  | @cons room run kept more runs hrun _ ih =>
    rw [List.append_eq_nil_iff, List.forall_mem_cons, ← hrun.eq_nil_iff]
    refine and_congr_right ?_
    rintro rfl
    rw [ih, Text.width_nil, Int.natCast_zero, Int.sub_zero]

/-- If the first run fits whole, runs are thinned out behind it. -/
theorem thinned_cons_iff (h : LongestFitting room run run) :
    Thinned room (run :: runs) ↔ Thinned (room - Text.width run) runs := by
  constructor
  · rintro ⟨front, a, c, b, back, hruns, hwide, r, hr, d, hd, hfits⟩
    cases front with
    | nil =>
      -- the character that does not fit would be in the run
      obtain ⟨rfl, rfl⟩ := List.cons.inj hruns
      have hle := h.fits (by simp)
      rw [List.flatten_nil, List.nil_append] at hwide
      have hstart := width_le_of_prefix (s := a ++ [c]) (t := a ++ c :: b) ⟨b, by simp⟩
      omega
    | cons run' front =>
      obtain ⟨rfl, rfl⟩ := List.cons.inj hruns
      refine ⟨front, a, c, b, back, rfl, ?_, r, hr, d, hd, ?_⟩
      all_goals
        simp only [List.flatten_cons, Text.width_append] at hwide hfits ⊢
        omega
  · rintro ⟨front, a, c, b, back, rfl, hwide, r, hr, d, hd, hfits⟩
    refine ⟨run :: front, a, c, b, back, rfl, ?_, r, hr, d, hd, ?_⟩
    all_goals
      simp only [List.flatten_cons, Text.width_append] at hwide hfits ⊢
      omega

/-- If the first run does not fit whole, runs are thinned out by any later one that begins with a
character that fits behind what is kept of it. -/
theorem thinned_cut_iff {c : Char} {b : Text} (h : LongestFitting room (kept ++ c :: b) kept) :
    Thinned room ((kept ++ c :: b) :: runs)
      ↔ ∃ run ∈ runs, ∃ d ∈ run.head?, (Text.width (kept ++ [d]) : Int) ≤ room := by
  have hwide := h.lt_width_next
  constructor
  · rintro ⟨front, a, c', b', back, hruns, hwide', r, hr, d, hd, hfits⟩
    rw [Text.width_append] at hfits
    cases front with
    | nil =>
      obtain ⟨hrun, rfl⟩ := List.cons.inj hruns
      rw [List.flatten_nil, List.nil_append] at hwide' hfits
      -- what stands before the first character that does not fit is what is kept
      have hsame : a = kept := by
        have ha : a <+: kept := h.longest a (hrun ▸ List.prefix_append a _) (by omega)
        obtain ⟨z, rfl⟩ := ha
        cases z with
        | nil => rw [List.append_nil]
        | cons e z =>
          rw [List.append_assoc, List.append_right_inj, List.cons_append] at hrun
          obtain ⟨rfl, -⟩ := List.cons.inj hrun
          have hle := h.fits (by simp)
          have hstart := width_le_of_prefix (s := a ++ [e]) (t := a ++ e :: z) ⟨z, by simp⟩
          omega
      subst hsame
      exact ⟨r, hr, d, hd, by rwa [Text.width_append]⟩
    | cons run front =>
      -- the character that does not fit stands before
      obtain ⟨rfl, -⟩ := List.cons.inj hruns
      simp only [List.flatten_cons, Text.width_append, Text.width_cons,
        Text.width_nil] at hwide hfits
      omega
  · rintro ⟨r, hr, d, hd, hfits⟩
    exact ⟨[], kept, c, b, runs, rfl, hwide, r, hr, d, hd, hfits⟩

/-- **What is kept of runs is the longest start of all of them that fits, unless they are thinned
out.** -/
theorem keptRuns_longest_iff (h : KeptRuns room runs kept) :
    LongestFitting room runs.flatten kept ↔ ¬Thinned room runs := by
  induction h with
  | nil room =>
    refine iff_of_true ⟨List.prefix_refl _, fun hne => absurd rfl hne, fun p hp _ => hp⟩ ?_
    rintro ⟨front, a, c, b, back, hruns, -⟩
    exact absurd hruns.symm (by simp)
  | @cons room run kept more runs hrun hruns ih =>
    rw [List.flatten_cons]
    rcases hrun.cases with rfl | ⟨c, b, rfl, hwide⟩
    · rw [hrun.append_iff, ih, thinned_cons_iff hrun]
    · rw [hrun.append_cut_iff, thinned_cut_iff hrun, hruns.eq_nil_iff]
      have hroom : ∀ d : Char, room - Text.width kept < charWidth d
          ↔ ¬(Text.width (kept ++ [d]) : Int) ≤ room := by
        intro d
        rw [Text.width_append, Text.width_cons, Text.width_nil]
        omega
      simp only [hroom, not_exists, not_and]

end Text

/-! ## §3. The end of a line. -/

namespace Step

/-- What is kept of one run is the longest start that fits. -/
theorem fitting_longest (m : Measure) (column : Nat) (t : Text) :
    Text.LongestFitting (m.width - column) t (fitting m column t) := by
  refine ⟨fitting_start m column t, fun hne => ?_, ?_⟩
  · have hfits := (fitting_fits m column t).resolve_right hne
    omega
  · induction t generalizing column with
    | nil => exact fun p hp _ => hp
    | cons ch t ih =>
      intro p hp hroom
      unfold fitting
      cases p with
      | nil => exact List.nil_prefix
      | cons d p =>
        obtain ⟨rfl, htail⟩ := List.cons_prefix_cons.mp hp
        rw [Text.width_cons] at hroom
        rw [if_pos (by omega)]
        refine List.cons_prefix_cons.mpr ⟨rfl, ih _ p htail ?_⟩
        omega

/-- **At the end of a line the waiting runs are kept**, each as far as it fits. -/
theorem flushPending_keptRuns (m : Measure) (c : Cursor) :
    Text.KeptRuns (m.width - c.column) (textsOf c.pending)
      ((flushPending m c).1.flatMap Placed.literal) := by
  have hall : ∀ (rs : List Run) (c : Cursor), Text.KeptRuns (m.width - c.column) (textsOf rs)
      ((each (placeTrailing m) rs c).1.flatMap Placed.literal) := by
    intro rs
    induction rs with
    | nil => exact fun c => .nil _
    | cons r rs ih =>
      intro c
      rw [each_cons, List.flatMap_append]
      cases r with
      | style codes active => exact ih (placeTrailing m (.style codes active) c).2
      | text t =>
        have hliteral : (placeTrailing m (.text t) c).1.flatMap Placed.literal
            = fitting m c.column t := List.append_nil _
        have hmore := ih (placeTrailing m (.text t) c).2
        have hcolumn : ((placeTrailing m (.text t) c).2.column : Int)
            = c.column + Text.width (fitting m c.column t) := Int.natCast_add _ _
        rw [hcolumn, ← Int.sub_sub] at hmore
        rw [hliteral]
        exact .cons (fitting_longest m c.column t) hmore
  exact hall c.pending { c with pending := [] }

end Step

end TermMarkup
