/-
  TermMarkup.Proofs.Scan
  ──────────────────────
  WHAT THE SCAN DOES, place by place.  A recogniser that answers at all answers
  with a mark that stands there, so one step of `scan` cuts off either one mark
  or one plain character.

    • `code?_eq_some`, `tag?_eq_some` — a recognised mark is a prefix of the text,
    • `scan_mark`, `scan_plain` — the two steps of a scan,
    • `scan_code?_code`, `scan_code?_plain` — a scan for codes crosses a code as
      one mark, and text without the escape character one by one.
-/
import TermMarkup.Mark
import TermMarkup.Proofs.Fields

namespace TermMarkup

/-! ## §1. What a recognised mark looks like. -/

theorem isParamChar_ne {c : Char} (h : isParamChar c = true) : c ≠ 'm' ∧ c ≠ Sgr.escape := by
  constructor <;> rintro rfl <;> revert h <;> decide

theorem isTagChar_ne {c : Char} (h : isTagChar c = true) : c ≠ '}' ∧ c ≠ Sgr.escape := by
  constructor <;> rintro rfl <;> revert h <;> decide

/-- The parameters of a code end where its `m` stands. -/
theorem takeWhile_params {p : Text} (hp : p.all isParamChar = true) (rest : Text) :
    (p ++ 'm' :: rest).takeWhile isParamChar = p
      ∧ (p ++ 'm' :: rest).dropWhile isParamChar = 'm' :: rest := by
  refine Text.takeWhile_run (List.all_eq_true.mp hp) fun c hc => ?_
  obtain rfl : 'm' = c := Option.some.inj hc
  decide

theorem code?_code (b : Bool) {p : Text} (hp : p.all isParamChar = true) (rest : Text) :
    Mark.code? b (Sgr.code p ++ rest) = some (.code p) := by
  obtain ⟨h1, h2⟩ := takeWhile_params hp rest
  show Mark.code? b ('\x1b' :: '[' :: (p ++ ['m'] ++ rest)) = _
  rw [List.append_assoc, List.singleton_append]
  simp [Mark.code?, h1, h2]

theorem code?_of_ne (b : Bool) {c : Char} (hc : c ≠ Sgr.escape) (cs : Text) :
    Mark.code? b (c :: cs) = none := by
  unfold Mark.code?
  split
  · next h => exact absurd (List.cons.inj h).1 hc
  · rfl

/-- **A recognised code stands at the start of the text.** -/
theorem code?_eq_some {b : Bool} {t : Text} {m : Mark} (h : Mark.code? b t = some m) :
    ∃ p rest, p.all isParamChar = true ∧ m = .code p ∧ t = Sgr.code p ++ rest := by
  unfold Mark.code? at h
  split at h
  · next rest =>
    split at h
    · next hm =>
      obtain ⟨after, ha⟩ := List.head?_eq_some_iff.mp hm
      refine ⟨rest.takeWhile isParamChar, after, ?_, ?_, ?_⟩
      · exact List.all_takeWhile
      · exact (Option.some.inj h).symm
      · show '\x1b' :: '[' :: rest = '\x1b' :: '[' :: (_ ++ ['m'] ++ _)
        rw [List.append_assoc, List.singleton_append, ← ha, List.takeWhile_append_dropWhile]
    · simp at h
  · simp at h

/-- The head of a tag is a prefix of the text, and its body is made of tag characters. -/
theorem ofBody?_eq_some {closes : Bool} {t : Text} {h : TagHead}
    (hh : TagHead.ofBody? closes t = some h) :
    h.closes = closes ∧ h.body.all isTagChar = true ∧ t = h.body ++ h.after := by
  unfold TagHead.ofBody? at hh
  split at hh
  · obtain rfl := Option.some.inj hh
    exact ⟨rfl, List.all_takeWhile, List.takeWhile_append_dropWhile.symm⟩
  · simp at hh

theorem read?_eq_some {b : Bool} {t : Text} {h : TagHead} (hh : TagHead.read? b t = some h) :
    b = false ∧ h.body.all isTagChar = true ∧ t = h.source ++ h.after := by
  unfold TagHead.read? at hh
  split at hh
  · simp at hh
  · next hb =>
    have hb : b = false := by simpa using hb
    split at hh
    · obtain ⟨h1, h2, h3⟩ := ofBody?_eq_some hh
      exact ⟨hb, h2, by rw [h3]; simp [TagHead.source, h1, tagStart]⟩
    · obtain ⟨h1, h2, h3⟩ := ofBody?_eq_some hh
      exact ⟨hb, h2, by rw [h3]; simp [TagHead.source, h1, tagStart]⟩
    · simp at hh

/-- **A recognised tag stands at the start of the text, not after an opening brace.** -/
theorem tag?_eq_some {b : Bool} {t : Text} {m : Mark} (h : Mark.tag? b t = some m) :
    ∃ closes body rest, b = false ∧ body.all isTagChar = true ∧ m = .tag closes body
      ∧ t = m.source ++ rest := by
  unfold Mark.tag? at h
  split at h
  · next hd hread =>
    obtain ⟨hb, hbody, ht⟩ := read?_eq_some hread
    split at h
    · next hclose =>
      obtain rfl := Option.some.inj h
      obtain ⟨after, ha⟩ := List.head?_eq_some_iff.mp hclose
      refine ⟨hd.closes, hd.body, after, hb, hbody, rfl, ?_⟩
      rw [ht, ha]
      simp [TagHead.source, Mark.source]
    · simp at h
  · simp at h

theorem source_ne_nil (m : Mark) : m.source ≠ [] := by
  cases m with
  | code p => simp [Mark.source, Sgr.code]
  | tag closes body => cases closes <;> simp [Mark.source, tagStart]

/-! ## §2. The two steps of a scan. -/

theorem scan_mark {read : Recognizer} {b : Bool} {m : Mark} {rest : Text}
    (h : read b (m.source ++ rest) = some m) :
    scan read b (m.source ++ rest) = .mark m :: scan read false rest := by
  cases hs : m.source with
  | nil => exact absurd hs (source_ne_nil m)
  | cons c cs =>
    rw [hs] at h
    rw [List.cons_append] at h ⊢
    rw [scan, h]
    simp [hs]

theorem scan_plain {read : Recognizer} {b : Bool} {c : Char} {cs : Text}
    (h : read b (c :: cs) = none) :
    scan read b (c :: cs) = .plain c :: scan read (c == '{') cs := by
  rw [scan, h]

/-! ## §3. The scan for codes. -/

theorem code?_flag (b b' : Bool) (t : Text) : Mark.code? b t = Mark.code? b' t := by
  unfold Mark.code?
  split <;> rfl

/-- What stands before a text does not matter for the codes in it. -/
theorem scan_code?_flag (b b' : Bool) (t : Text) :
    scan Mark.code? b t = scan Mark.code? b' t := by
  cases t with
  | nil => rw [scan, scan]
  | cons c cs => rw [scan, scan, code?_flag b b']

theorem scan_code?_code (b : Bool) {p : Text} (hp : p.all isParamChar = true) (rest : Text) :
    scan Mark.code? b (Sgr.code p ++ rest) = .mark (.code p) :: scan Mark.code? b rest := by
  -- the scan goes on after a mark as if no brace stood before, which a code does not mind
  rw [scan_code?_flag b false rest]
  exact scan_mark (m := .code p) (code?_code b hp rest)

theorem scan_code?_plain (b : Bool) {u : Text} (hu : Sgr.escape ∉ u) (rest : Text) :
    scan Mark.code? b (u ++ rest) = u.map .plain ++ scan Mark.code? b rest := by
  induction u with
  | nil => rfl
  | cons c u ih =>
    have hc : c ≠ Sgr.escape := fun h => hu (h ▸ List.mem_cons_self)
    rw [List.cons_append, scan_plain (code?_of_ne b hc _), scan_code?_flag _ b,
      ih fun h => hu (List.mem_cons_of_mem _ h)]
    rfl

end TermMarkup
