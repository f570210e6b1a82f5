/-
  TermMarkup.Proofs.TagRanges
  ───────────────────────────
  THE RANGES OF A TEXT THAT ARE TAGS.  The scan goes from left to right, jumps over
  each tag that it finds, and knows of the text behind it only whether the last
  character was an opening brace.  Still it misses no tag: two tags of a text
  stand apart, so a jump passes over none, and no tag ends in an opening brace,
  so behind a jump there is none, as the scan believes.

    • `mem_tagsFrom_scan_iff` — the tags found are those that stand in the text,
    • `tagsFrom_pairwise` — they are found in order, each behind the one before,
    • `HoldsTag` — the grammar of tags, by the characters of a range,
    • `tags_exact` — the tags of a text are exactly the ranges of this grammar.
-/
import TermMarkup.Proofs.Deletion

namespace TermMarkup

namespace Text

/-! ## §1. Where tags stand. -/

/-- Behind a tag there is no opening brace. -/
theorem endsInBrace_tag (b : Bool) (closes : Bool) (body : Text) :
    endsInBrace b (Mark.tag closes body).source = false :=
  endsInBrace_append_singleton b (tagStart closes ++ body) '}'

/-- The tag stands in the text from its start to its stop, where the text begins at `offset`; the
flag says whether an opening brace stands before the text. -/
structure Stands (offset : Nat) (afterBrace : Bool) (t : Text) (tag : Tag) : Prop where
  splits : ∃ before after, t = before ++ (tag.source ++ after)
    ∧ endsInBrace afterBrace before = false ∧ tag.start = offset + before.length
  formed : (Mark.tag tag.closes tag.body).Formed
  stop_eq : tag.stop = tag.start + tag.source.length

/-- What lies between the start and the stop of a tag is the tag. -/
theorem Stands.chars {t : Text} {tag : Tag} (h : Stands 0 false t tag) :
    (t.drop tag.start).take (tag.stop - tag.start) = tag.source := by
  obtain ⟨⟨before, after, rfl, -, hstart⟩, -, hstop⟩ := h
  rw [Nat.zero_add] at hstart
  rw [hstop, hstart, List.drop_left, Nat.add_sub_cancel_left, List.take_left]

section Steps

variable {offset : Nat} {b : Bool} {tag : Tag}

theorem not_stands_nil : ¬Stands offset b [] tag := by
  rintro ⟨⟨before, after, ht, -⟩, -⟩
  have hsource := (List.append_eq_nil_iff.mp ((List.append_eq_nil_iff.mp ht.symm).2)).1
  exact absurd hsource (source_ne_nil _)

/-- **At a tag** there stands this tag, and all others stand behind it. -/
theorem stands_tag_iff {closes : Bool} {body rest : Text} (h : (Mark.tag closes body).Formed) :
    Stands offset false ((Mark.tag closes body).source ++ rest) tag ↔
      tag = ⟨offset, offset + (Mark.tag closes body).source.length, closes, body⟩
        ∨ Stands (offset + (Mark.tag closes body).source.length) false rest tag := by
  constructor
  · rintro ⟨⟨before, after, ht, hbefore, hstart⟩, hformed, hstop⟩
    rcases tags_apart h hformed ht with ⟨rfl, rfl⟩ | ⟨z, rfl, rfl⟩
    · left
      -- one tag only is read at one place
      have hread : Mark.tag? false (tag.source ++ rest) = some (.tag closes body) :=
        ht ▸ tag?_tag h rest
      obtain ⟨hcloses, hbody⟩ := Mark.tag.inj
        (Option.some.inj ((tag?_tag hformed rest).symm.trans hread))
      obtain ⟨start, stop, closes', body'⟩ := tag
      obtain rfl : closes' = closes := hcloses
      obtain rfl : body' = body := hbody
      obtain rfl : start = offset := hstart
      obtain rfl : stop = start + (Mark.tag closes' body').source.length := hstop
      rfl
    · rw [endsInBrace_append, endsInBrace_tag] at hbefore
      rw [List.length_append, ← Nat.add_assoc] at hstart
      exact .inr ⟨⟨z, after, rfl, hbefore, hstart⟩, hformed, hstop⟩
  · rintro (rfl | ⟨⟨before, after, rfl, hbefore, hstart⟩, hformed, hstop⟩)
    · exact ⟨⟨[], rest, rfl, rfl, rfl⟩, h, rfl⟩
    · refine ⟨⟨(Mark.tag closes body).source ++ before, after, ?_, ?_, ?_⟩, hformed, hstop⟩
      · rw [List.append_assoc]
      · rw [endsInBrace_append, endsInBrace_tag, hbefore]
      · rw [hstart, List.length_append, Nat.add_assoc]

/-- **Where no tag is read**, all tags stand behind the first character. -/
theorem stands_plain_iff {c : Char} {cs : Text} (h : Mark.tag? b (c :: cs) = none) :
    Stands offset b (c :: cs) tag ↔ Stands (offset + 1) (c == '{') cs tag := by
  constructor
  · rintro ⟨⟨before, after, ht, hbefore, hstart⟩, hformed, hstop⟩
    cases before with
    | nil =>
      obtain rfl : b = false := hbefore
      rw [ht] at h
      exact nomatch (tag?_tag hformed after).symm.trans h
    | cons d before =>
      obtain ⟨rfl, rfl⟩ := List.cons.inj ht
      rw [List.length_cons, Nat.add_comm before.length 1, ← Nat.add_assoc] at hstart
      exact ⟨⟨before, after, rfl, hbefore, hstart⟩, hformed, hstop⟩
  · rintro ⟨⟨before, after, rfl, hbefore, hstart⟩, hformed, hstop⟩
    rw [Nat.add_assoc, Nat.add_comm 1] at hstart
    exact ⟨⟨c :: before, after, rfl, hbefore, hstart⟩, hformed, hstop⟩

/-- **A scan finds the tags that stand in the text**, and no others. -/
theorem mem_tagsFrom_scan_iff {t : Text} :
    tag ∈ tagsFrom offset (scan Mark.tag? b t) ↔ Stands offset b t tag := by
  -- along the scan: what it does at a place is what standing there comes to
  induction b, t using scan.induct Mark.tag? generalizing offset with
  | case1 b =>
    rw [scan]
    exact iff_of_false List.not_mem_nil not_stands_nil
  | case2 b c cs m hm ih =>
    obtain ⟨rfl, closes, body, rest, rfl, hformed, hsource⟩ := tag?_eq_some_iff.mp hm
    rw [drop_source hsource] at ih
    rw [hsource] at hm ⊢
    rw [scan_mark hm, stands_tag_iff hformed, ← ih]
    exact List.mem_cons
  | case3 b c cs hm ih =>
    rw [scan_plain hm, stands_plain_iff hm, ← ih]
    exact Iff.rfl

end Steps

/-! ## §2. Order. -/

theorem start_le {ps : List Piece} {offset : Nat} {tag : Tag} (h : tag ∈ tagsFrom offset ps) :
    offset ≤ tag.start := by
  induction ps generalizing offset with
  | nil => exact absurd h List.not_mem_nil
  | cons p ps ih =>
    have hrest : tag ∈ tagsFrom (offset + p.source.length) ps → offset ≤ tag.start :=
      fun h => Nat.le_trans (Nat.le_add_right _ _) (ih h)
    cases p with
    | plain c => exact hrest h
    | mark m =>
      cases m with
      | code params => exact hrest h
      | tag closes body =>
        rcases List.mem_cons.mp h with rfl | h
        · exact Nat.le_refl _
        · exact hrest h

/-- **Tags are found in order**, each behind the one before. -/
theorem tagsFrom_pairwise (offset : Nat) (ps : List Piece) :
    (tagsFrom offset ps).Pairwise fun a b => a.stop ≤ b.start := by
  induction ps generalizing offset with
  | nil => exact List.Pairwise.nil
  | cons p ps ih =>
    have hrest := ih (offset + p.source.length)
    cases p with
    | plain c => exact hrest
    | mark m =>
      cases m with
      | code params => exact hrest
      | tag closes body => exact List.pairwise_cons.mpr ⟨fun tag htag => start_le htag, hrest⟩

/-! ## §3. The grammar of tags. -/

/-- The range of the text from `i` up to `j` is a tag by its characters: an opening brace with no
other one before it, a slash or none, a character that can start a body, any characters of a body
and a closing brace. -/
structure HoldsTag (t : Text) (i j : Nat) : Prop where
  stop_le : j ≤ t.length
  single : i = 0 ∨ t[i - 1]? ≠ some '{'
  chars : ∃ slash first more, (slash = [] ∨ slash = ['/']) ∧ isTagStart first = true
    ∧ (∀ c ∈ more, isTagChar c = true)
    ∧ (t.drop i).take (j - i) = '{' :: slash ++ first :: more ++ ['}']

/-- A body of a tag is a character that can start it and others that a body holds. -/
theorem formed_tag_iff {closes : Bool} {body : Text} :
    (Mark.tag closes body).Formed ↔ ∃ first more, body = first :: more
      ∧ isTagStart first = true ∧ ∀ c ∈ more, isTagChar c = true := by
  constructor
  · rintro ⟨hstart, hbody⟩
    cases body with
    | nil => exact nomatch hstart
    | cons first more =>
      rw [List.all_cons] at hbody
      exact ⟨first, more, rfl, hstart, List.all_eq_true.mp (Bool.and_eq_true_iff.mp hbody).2⟩
  · rintro ⟨first, more, rfl, hfirst, hmore⟩
    refine ⟨hfirst, List.all_eq_true.mpr fun c hc => ?_⟩
    rcases List.mem_cons.mp hc with rfl | hc
    · exact Bool.or_eq_true_iff.mpr (.inl hfirst)
    · exact hmore c hc

/-- The look at the character before a place. -/
theorem endsInBrace_eq_false_iff_getElem? {before rest : Text} :
    endsInBrace false before = false ↔
      before.length = 0 ∨ (before ++ rest)[before.length - 1]? ≠ some '{' := by
  rcases List.eq_nil_or_concat before with rfl | ⟨u, c, rfl⟩
  · exact iff_of_true rfl (.inl rfl)
  · rw [List.concat_eq_append, endsInBrace_append_singleton]
    simp

/-- **The tags that stand in a text** are the ranges of the grammar. -/
theorem exists_stands_iff {t : Text} {i j : Nat} :
    (∃ tag, Stands 0 false t tag ∧ tag.start = i ∧ tag.stop = j) ↔ t.HoldsTag i j := by
  constructor
  · rintro ⟨tag, hstands, rfl, rfl⟩
    have hchars := hstands.chars
    obtain ⟨⟨before, after, rfl, hbefore, hstart⟩, hformed, hstop⟩ := hstands
    rw [Nat.zero_add] at hstart
    obtain ⟨first, more, hbody, hfirst, hmore⟩ := formed_tag_iff.mp hformed
    refine ⟨?_, ?_, if tag.closes then ['/'] else [], first, more, ?_, hfirst, hmore, ?_⟩
    · rw [hstop, hstart, List.length_append, List.length_append]
      omega
    · rw [hstart]
      exact endsInBrace_eq_false_iff_getElem?.mp hbefore
    · cases tag.closes with
      | true => exact .inr rfl
      | false => exact .inl rfl
    · rw [hchars]
      unfold Tag.source Mark.source tagStart
      rw [hbody]
      cases tag.closes <;> rfl
  · rintro ⟨hstop, hsingle, slash, first, more, hslash, hfirst, hmore, hchars⟩
    have hlt : i < j := by
      by_contra hle
      rw [Nat.sub_eq_zero_of_le (Nat.not_lt.mp hle), List.take_zero] at hchars
      exact nomatch hchars
    have hlength : (t.take i).length = i := List.length_take_of_le (by omega)
    have hsplit : t = t.take i ++ ((t.drop i).take (j - i) ++ t.drop j) := by
      have hrest : (t.drop i).drop (j - i) = t.drop j := by
        rw [List.drop_drop]
        congr 1
        omega
      rw [← hrest, List.take_append_drop, List.take_append_drop]
    have hbefore : endsInBrace false (t.take i) = false := by
      rw [endsInBrace_eq_false_iff_getElem?, hlength]
      exact hsplit ▸ hsingle
    obtain ⟨closes, hsource⟩ :
        ∃ closes, (Mark.tag closes (first :: more)).source = (t.drop i).take (j - i) := by
      rw [hchars]
      rcases hslash with rfl | rfl
      · exact ⟨false, rfl⟩
      · exact ⟨true, rfl⟩
    have hformed : (Mark.tag closes (first :: more)).Formed :=
      formed_tag_iff.mpr ⟨first, more, rfl, hfirst, hmore⟩
    refine ⟨⟨i, j, closes, first :: more⟩, ⟨⟨t.take i, t.drop j, ?_, hbefore, ?_⟩, hformed, ?_⟩,
      rfl, rfl⟩
    · show t = t.take i ++ ((Mark.tag closes (first :: more)).source ++ t.drop j)
      rw [hsource]
      exact hsplit
    · rw [hlength, Nat.zero_add]
    · show j = i + (Mark.tag closes (first :: more)).source.length
      rw [hsource, List.length_take, List.length_drop]
      omega

/-- The tags of a text are those that stand in it. -/
theorem mem_tags_iff {t : Text} {tag : Tag} : tag ∈ t.tags ↔ Stands 0 false t tag :=
  mem_tagsFrom_scan_iff

/-- The second character of a tag tells whether it closes. -/
theorem Stands.closes_iff {t : Text} {tag : Tag} (h : Stands 0 false t tag) :
    tag.closes = true ↔ t[tag.start + 1]? = some '/' := by
  obtain ⟨⟨before, after, rfl, -, hstart⟩, hformed, -⟩ := h
  obtain ⟨first, more, hbody, hfirst, -⟩ := formed_tag_iff.mp hformed
  have hsecond : (before ++ (tag.source ++ after))[tag.start + 1]? = (tag.source ++ after)[1]? := by
    rw [hstart, Nat.zero_add, List.getElem?_append_right (Nat.le_add_right _ _),
      Nat.add_sub_cancel_left]
  rw [hsecond]
  unfold Tag.source Mark.source tagStart
  rw [hbody]
  cases tag.closes with
  | true => exact iff_of_true rfl rfl
  | false =>
    refine iff_of_false Bool.false_ne_true fun h => ?_
    exact ne_slash_of_start hfirst (Option.some.inj h)

/-- **The tags of a text are exactly the ranges of the grammar.**  They are listed in order, each
behind the one before; a range is that of a tag exactly if it is one by its characters; and what
stands there is the tag as it is written, with a slash exactly if it closes. -/
theorem tags_exact (t : Text) :
    (t.tags.Pairwise fun a b => a.stop ≤ b.start)
      ∧ (∀ i j, (∃ tag ∈ t.tags, tag.start = i ∧ tag.stop = j) ↔ t.HoldsTag i j)
      ∧ ∀ tag ∈ t.tags, tag.start < tag.stop
        ∧ (t.drop tag.start).take (tag.stop - tag.start) = tag.source
        ∧ (tag.closes = true ↔ t[tag.start + 1]? = some '/') := by
  refine ⟨tagsFrom_pairwise 0 _, fun i j => ?_, fun tag htag => ?_⟩
  · simp only [mem_tags_iff]
    exact exists_stands_iff
  · have hstands := mem_tags_iff.mp htag
    have hpos := List.length_pos_iff.mpr (source_ne_nil (.tag tag.closes tag.body))
    have hstop : tag.stop = tag.start + (Mark.tag tag.closes tag.body).source.length :=
      hstands.stop_eq
    exact ⟨by omega, hstands.chars, hstands.closes_iff⟩

end Text

end TermMarkup
