/-
  TermMarkup.Proofs.MarkForms
  ───────────────────────────
  THE FORM OF A MARK, apart from any recogniser: a code has parameters made of
  digits and semicolons, a tag has a body of tag characters of which the first
  can start it.  A recogniser accepts a text exactly if a mark of its kind and
  of this form stands at the start, so what it accepts does not depend on what
  follows the mark.

    • `code?_eq_some_iff`, `tag?_eq_some_iff` — what the recognisers accept,
    • `any?_eq_none_iff` — where no mark of either kind stands,
    • `Recognizer.Extends` — more text at the end takes no mark away.
-/
import TermMarkup.Proofs.Pieces

namespace TermMarkup

/-! ## §1. Forms. -/

/-- The mark has the form of a mark. -/
def Mark.Formed : Mark → Prop
  | .code params => params.all isParamChar = true
  | .tag _ body => body.head?.any isTagStart = true ∧ body.all isTagChar = true

/-- A code stands at the start of a text exactly if the recogniser of codes says so. -/
theorem code?_eq_some_iff {b : Bool} {t : Text} {m : Mark} :
    Mark.code? b t = some m
      ↔ ∃ params rest, m = .code params ∧ m.Formed ∧ t = m.source ++ rest := by
  constructor
  · intro h
    obtain ⟨p, rest, hp, rfl, hsource⟩ := code?_eq_some h
    exact ⟨p, rest, rfl, hp, hsource⟩
  · rintro ⟨p, rest, rfl, hp, rfl⟩
    exact code?_code b hp rest

/-- The body of a tag ends where a character stands that no body holds. -/
theorem takeWhile_body {body rest : Text} (hbody : body.all isTagChar = true)
    (hrest : rest.head?.any isTagChar = false) :
    (body ++ rest).takeWhile isTagChar = body ∧ (body ++ rest).dropWhile isTagChar = rest := by
  refine Text.takeWhile_run (List.all_eq_true.mp hbody) fun c hc => ?_
  rw [Option.mem_def] at hc
  rwa [hc] at hrest

/-- A body that can start a tag is a head with all that follows. -/
theorem ofBody?_body (closes : Bool) {body rest : Text} (hstart : body.head?.any isTagStart = true)
    (hbody : body.all isTagChar = true) (hrest : rest.head?.any isTagChar = false) :
    TagHead.ofBody? closes (body ++ rest) = some ⟨closes, body, rest⟩ := by
  obtain ⟨htake, hdrop⟩ := takeWhile_body hbody hrest
  have hhead : (body ++ rest).head?.any isTagStart = true := by
    cases body with
    | nil => exact nomatch hstart
    | cons c body => exact hstart
  unfold TagHead.ofBody?
  rw [if_pos hhead, htake, hdrop]

/-- A body never starts with the slash of a closing tag. -/
theorem ne_slash_of_start {c : Char} (h : isTagStart c = true) : c ≠ '/' := by
  rintro rfl
  exact absurd h (by decide)

/-- **The head of a tag in its form is read** up to where its body ends. -/
theorem read?_head {closes : Bool} {body rest : Text} (h : (Mark.tag closes body).Formed)
    (hrest : rest.head?.any isTagChar = false) :
    TagHead.read? false (tagStart closes ++ body ++ rest) = some ⟨closes, body, rest⟩ := by
  obtain ⟨hstart, hbody⟩ := h
  rw [List.append_assoc]
  cases closes with
  | true => exact ofBody?_body true hstart hbody hrest
  | false =>
    cases body with
    | nil => exact absurd hstart Bool.false_ne_true
    | cons c body =>
      exact (read?_open (ne_slash_of_start hstart) _).trans
        (ofBody?_body false hstart hbody hrest)

/-- A tag in its form is recognised, whatever follows. -/
theorem tag?_tag {closes : Bool} {body : Text} (h : (Mark.tag closes body).Formed) (rest : Text) :
    Mark.tag? false ((Mark.tag closes body).source ++ rest) = some (.tag closes body) := by
  have hsource : (Mark.tag closes body).source ++ rest
      = tagStart closes ++ body ++ '}' :: rest :=
    List.append_assoc _ _ _
  have hclose : ('}' :: rest).head?.any isTagChar = false := by
    show isTagChar '}' = false
    decide
  unfold Mark.tag?
  rw [hsource, read?_head h hclose]
  rfl

/-- The body of a head begins with a character that can start it. -/
theorem ofBody?_start {closes : Bool} {t : Text} {h : TagHead}
    (hh : TagHead.ofBody? closes t = some h) : h.body.head?.any isTagStart = true := by
  unfold TagHead.ofBody? at hh
  split at hh
  · next hstart =>
    obtain rfl := Option.some.inj hh
    cases t with
    | nil => exact nomatch hstart
    | cons c t =>
      have hc : isTagStart c = true := hstart
      have htag : isTagChar c = true := by simp [isTagChar, hc]
      show ((c :: t).takeWhile isTagChar).head?.any isTagStart = true
      rw [List.takeWhile_cons_of_pos htag]
      exact hc
  · exact nomatch hh

theorem read?_start {b : Bool} {t : Text} {h : TagHead} (hh : TagHead.read? b t = some h) :
    h.body.head?.any isTagStart = true := by
  unfold TagHead.read? at hh
  split at hh
  · exact nomatch hh
  · split at hh
    · exact ofBody?_start hh
    · exact ofBody?_start hh
    · exact nomatch hh

/-- **A tag stands at the start of a text, not behind an opening brace, exactly if the recogniser of
tags says so.** -/
theorem tag?_eq_some_iff {b : Bool} {t : Text} {m : Mark} :
    Mark.tag? b t = some m
      ↔ b = false ∧ ∃ closes body rest, m = .tag closes body ∧ m.Formed ∧ t = m.source ++ rest := by
  constructor
  · intro h
    obtain ⟨closes, body, rest, hb, hbody, hm, hsource⟩ := tag?_eq_some h
    refine ⟨hb, closes, body, rest, hm, ?_, hsource⟩
    unfold Mark.tag? at h
    split at h
    · next hd hread =>
      split at h
      · have hbodies : hd.body = body := (Mark.tag.inj ((Option.some.inj h).trans hm)).2
        rw [hm]
        exact ⟨hbodies ▸ read?_start hread, hbody⟩
      · exact nomatch h
    · exact nomatch h
  · rintro ⟨rfl, closes, body, rest, rfl, hformed, rfl⟩
    exact tag?_tag hformed rest

/-! ## §2. Marks of either kind. -/

/-- No mark stands where neither a code nor a tag does. -/
theorem any?_eq_none_iff {b : Bool} {t : Text} :
    Mark.any? b t = none ↔ Mark.code? b t = none ∧ Mark.tag? b t = none := by
  unfold Mark.any?
  cases Mark.code? b t with
  | none => exact ⟨fun h => ⟨rfl, h⟩, fun h => h.2⟩
  | some m => exact ⟨fun h => (nomatch h), fun h => (nomatch h.1)⟩

/-- A mark of either kind has its form and stands at the start of the text. -/
theorem any?_eq_some {b : Bool} {t : Text} {m : Mark} (h : Mark.any? b t = some m) :
    m.Formed ∧ (Mark.code? b t = some m ∨ Mark.code? b t = none ∧ Mark.tag? b t = some m) := by
  unfold Mark.any? at h
  cases hcode : Mark.code? b t with
  | some m' =>
    rw [hcode] at h
    obtain rfl := Option.some.inj h
    obtain ⟨-, -, -, hformed, -⟩ := code?_eq_some_iff.mp hcode
    exact ⟨hformed, .inl rfl⟩
  | none =>
    rw [hcode] at h
    have htag : Mark.tag? b t = some m := h
    obtain ⟨-, -, -, -, -, hformed, -⟩ := tag?_eq_some_iff.mp htag
    exact ⟨hformed, .inr ⟨rfl, htag⟩⟩

/-! ## §3. More text behind a mark. -/

/-- What is recognised in a text is recognised with more text behind it. -/
def Recognizer.Extends (read : Recognizer) : Prop :=
  ∀ b t m rest, read b t = some m → read b (t ++ rest) = some m

theorem code?_extends : Recognizer.Extends Mark.code? := by
  intro b t m rest h
  obtain ⟨p, after, hm, hformed, rfl⟩ := code?_eq_some_iff.mp h
  exact code?_eq_some_iff.mpr ⟨p, after ++ rest, hm, hformed, List.append_assoc _ _ _⟩

theorem tag?_extends : Recognizer.Extends Mark.tag? := by
  intro b t m rest h
  obtain ⟨hb, closes, body, after, hm, hformed, rfl⟩ := tag?_eq_some_iff.mp h
  exact tag?_eq_some_iff.mpr ⟨hb, closes, body, after ++ rest, hm, hformed, List.append_assoc _ _ _⟩

end TermMarkup
