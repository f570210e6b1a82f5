/-
  TermMarkup.Proofs.Fields
  ────────────────────────
  FIELDS AND WORDS OF A TEXT.  One equation at a separator says all: what stands
  before it and what stands behind it are cut each by itself.  A run of characters
  of one class is taken up to the first character of another.
-/
import TermMarkup.Text.Blank

namespace TermMarkup.Text

variable {p : Char → Bool}

/-! ## §1. Runs. -/

/-- A run of marked characters is taken up to the first character that is not marked. -/
theorem takeWhile_run {run rest : Text} (hrun : ∀ c ∈ run, p c = true)
    (hrest : ∀ c ∈ rest.head?, p c = false) :
    (run ++ rest).takeWhile p = run ∧ (run ++ rest).dropWhile p = rest := by
  rw [List.takeWhile_append_of_pos hrun, List.dropWhile_append_of_pos hrun]
  cases rest with
  | nil => exact ⟨List.append_nil run, rfl⟩
  | cons c rest =>
    have hc : ¬p c = true := by simpa using hrest c rfl
    rw [List.takeWhile_cons_of_neg hc, List.dropWhile_cons_of_neg hc, List.append_nil]
    exact ⟨rfl, rfl⟩

/-! ## §2. Fields. -/

theorem fieldsBy_of_none {t : Text} (h : ∀ c ∈ t, p c = false) : fieldsBy p t = [t] := by
  induction t with
  | nil => rfl
  | cons c t ih =>
    rw [fieldsBy, ih fun d hd => h d (List.mem_cons_of_mem _ hd)]
    simp [h c List.mem_cons_self]

/-- **Fields are cut at every separator.** -/
theorem fieldsBy_append_separator {c : Char} (hc : p c = true) (a b : Text) :
    fieldsBy p (a ++ c :: b) = fieldsBy p a ++ fieldsBy p b := by
  induction a with
  | nil => simp [fieldsBy, hc]
  | cons d a ih =>
    rw [List.cons_append, fieldsBy, fieldsBy, ih]
    split
    · rfl
    · -- the character joins the first field, of which there is always one
      obtain ⟨first, rest, hcut⟩ := List.exists_cons_of_ne_nil (fieldsBy_ne_nil p a)
      rw [hcut]
      rfl

/-- Fields are cut at the first separator. -/
theorem fieldsBy_append_cons {a : Text} {c : Char} (ha : ∀ d ∈ a, p d = false) (hc : p c = true)
    (b : Text) : fieldsBy p (a ++ c :: b) = a :: fieldsBy p b := by
  rw [fieldsBy_append_separator hc, fieldsBy_of_none ha]
  rfl

/-- **The fields of joined texts** are those of each of them, in order. -/
theorem fields_join {c : Char} {ts : List Text} (hne : ts ≠ []) :
    fields c (join [c] ts) = ts.flatMap (fields c) := by
  induction ts with
  | nil => exact absurd rfl hne
  | cons t ts ih =>
    rw [List.flatMap_cons]
    cases ts with
    | nil =>
      rw [join_singleton]
      exact (List.append_nil _).symm
    | cons u us =>
      rw [join_cons_cons, List.singleton_append]
      unfold fields
      rw [fieldsBy_append_separator (p := (· == c)) (beq_self_eq_true c)]
      exact congrArg _ (ih (List.cons_ne_nil _ _))

/-- Text without a separator joins the first field of what follows. -/
theorem fieldsBy_append {a : Text} (ha : ∀ d ∈ a, p d = false) (t : Text) :
    ∃ first rest, fieldsBy p t = first :: rest ∧ fieldsBy p (a ++ t) = (a ++ first) :: rest := by
  induction a with
  | nil =>
    obtain ⟨first, rest, h⟩ := List.exists_cons_of_ne_nil (fieldsBy_ne_nil p t)
    exact ⟨first, rest, h, h⟩
  | cons d a ih =>
    obtain ⟨first, rest, ht, hjoined⟩ := ih fun x hx => ha x (List.mem_cons_of_mem _ hx)
    refine ⟨first, rest, ht, ?_⟩
    rw [List.cons_append, fieldsBy, hjoined]
    simp [ha d List.mem_cons_self]

/-- A field holds no separator, and nothing that is not in the text. -/
theorem mem_fieldsBy {t field : Text} (h : field ∈ fieldsBy p t) :
    ∀ c ∈ field, c ∈ t ∧ p c = false := by
  induction t generalizing field with
  | nil =>
    have : field = [] := by simpa [fieldsBy] using h
    subst this
    simp
  | cons d t ih =>
    rw [fieldsBy] at h
    split at h
    · rcases List.mem_cons.mp h with rfl | h
      · simp
      · exact fun c hc => ⟨List.mem_cons_of_mem _ (ih h c hc).1, (ih h c hc).2⟩
    · next hd =>
      have hd : p d = false := by simpa using hd
      split at h
      · next hnil => exact absurd hnil (fieldsBy_ne_nil p t)
      · next first rest hcons =>
        have hfirst : first ∈ fieldsBy p t := hcons ▸ List.mem_cons_self
        rcases List.mem_cons.mp h with rfl | h
        · intro c hc
          rcases List.mem_cons.mp hc with rfl | hc
          · exact ⟨List.mem_cons_self, hd⟩
          · exact ⟨List.mem_cons_of_mem _ (ih hfirst c hc).1, (ih hfirst c hc).2⟩
        · have hf : field ∈ fieldsBy p t := hcons ▸ List.mem_cons_of_mem _ h
          exact fun c hc => ⟨List.mem_cons_of_mem _ (ih hf c hc).1, (ih hf c hc).2⟩

/-- A character that is no separator is in a field. -/
theorem exists_mem_fieldsBy {t : Text} {c : Char} (hc : c ∈ t) (hp : p c = false) :
    ∃ field ∈ fieldsBy p t, c ∈ field := by
  induction t with
  | nil => exact nomatch hc
  | cons d t ih =>
    obtain ⟨first, rest, hcons⟩ := List.exists_cons_of_ne_nil (fieldsBy_ne_nil p t)
    rw [hcons] at ih
    rw [fieldsBy, hcons]
    by_cases hd : p d = true
    · rw [if_pos hd]
      have hc : c ∈ t := by
        refine (List.mem_cons.mp hc).resolve_left ?_
        rintro rfl
        exact absurd hd (by simp [hp])
      obtain ⟨field, hfield, hmem⟩ := ih hc
      exact ⟨field, List.mem_cons_of_mem _ hfield, hmem⟩
    · rw [if_neg hd]
      rcases List.mem_cons.mp hc with rfl | hc
      · exact ⟨c :: first, List.mem_cons_self, List.mem_cons_self⟩
      · obtain ⟨field, hfield, hmem⟩ := ih hc
        rcases List.mem_cons.mp hfield with rfl | hfield
        · exact ⟨d :: field, List.mem_cons_self, List.mem_cons_of_mem _ hmem⟩
        · exact ⟨field, List.mem_cons_of_mem _ hfield, hmem⟩

/-- The first field begins with the first character, if that is no separator. -/
theorem exists_field_head {c : Char} (hc : p c = false) (t : Text) :
    ∃ field ∈ fieldsBy p (c :: t), field.head? = some c := by
  obtain ⟨first, rest, hcut⟩ := List.exists_cons_of_ne_nil (fieldsBy_ne_nil p t)
  rw [fieldsBy, hcut, if_neg (by simp [hc])]
  exact ⟨c :: first, List.mem_cons_self, rfl⟩

/-- The last field ends in the last character, if that is no separator. -/
theorem exists_field_last {c : Char} (hc : p c = false) (t : Text) :
    ∃ field ∈ fieldsBy p (t ++ [c]), field.getLast? = some c := by
  induction t with
  | nil =>
    refine ⟨[c], ?_, rfl⟩
    rw [List.nil_append, fieldsBy_of_none fun d hd => List.mem_singleton.mp hd ▸ hc]
    exact List.mem_cons_self
  | cons d t ih =>
    obtain ⟨field, hmem, hlast⟩ := ih
    obtain ⟨first, rest, hcut⟩ := List.exists_cons_of_ne_nil (fieldsBy_ne_nil p (t ++ [c]))
    rw [List.cons_append, fieldsBy]
    rw [hcut] at hmem ⊢
    split
    · exact ⟨field, List.mem_cons_of_mem _ hmem, hlast⟩
    · rcases List.mem_cons.mp hmem with rfl | hmem
      · refine ⟨d :: field, List.mem_cons_self, ?_⟩
        rw [List.getLast?_cons, hlast]
        rfl
      · exact ⟨field, List.mem_cons_of_mem _ hmem, hlast⟩

theorem lines_of_notMem {t : Text} (ht : '\n' ∉ t) : lines t = [t] :=
  fieldsBy_of_none fun c hc => by simpa using fun h : c = '\n' => ht (h ▸ hc)

/-- Texts that are ended by newlines are the first lines. -/
theorem lines_ended {ts : List Text} (hts : ∀ t ∈ ts, '\n' ∉ t) (rest : Text) :
    lines ((ts.flatMap fun t => t ++ ['\n']) ++ rest) = ts ++ lines rest := by
  induction ts with
  | nil => rfl
  | cons t ts ih =>
    have hfirst := lines_of_notMem (hts t List.mem_cons_self)
    unfold lines fields at hfirst ih ⊢
    rw [List.flatMap_cons, List.append_assoc, List.append_assoc, List.singleton_append,
      fieldsBy_append_separator (p := (· == '\n')) (beq_self_eq_true '\n'), hfirst,
      ih fun u hu => hts u (List.mem_cons_of_mem _ hu)]
    rfl

/-! ## §3. Words. -/

/-- **Words are cut at every blank.** -/
theorem words_append_blank {c : Char} (hc : isBlank c = true) (a b : Text) :
    words (a ++ c :: b) = words a ++ words b := by
  unfold words
  rw [fieldsBy_append_separator hc, List.filter_append]

theorem words_blanks {b : Text} (hb : ∀ c ∈ b, isBlank c = true) (t : Text) :
    words (b ++ t) = words t := by
  induction b with
  | nil => rfl
  | cons c b ih =>
    have hcut := words_append_blank (hb c List.mem_cons_self) [] (b ++ t)
    exact hcut.trans (ih fun d hd => hb d (List.mem_cons_of_mem _ hd))

theorem words_of_blanks {t : Text} (ht : ∀ c ∈ t, isBlank c = true) : words t = [] := by
  have h := words_blanks ht []
  rw [List.append_nil] at h
  exact h

/-- A word is not empty, and no blank is in it. -/
theorem mem_words {t w : Text} (h : w ∈ words t) : w ≠ [] ∧ ∀ c ∈ w, isBlank c = false := by
  obtain ⟨hfield, hne⟩ := List.mem_filter.mp h
  exact ⟨by simpa using hne, fun c hc => (mem_fieldsBy hfield c hc).2⟩

end TermMarkup.Text
