/-
  TermMarkup.Proofs.Outcome
  ─────────────────────────
  COMPUTATIONS THAT CAN FAIL, taken apart: a sequence that succeeds has steps
  that succeed, and one that fails has a step that fails.

    • `bind_eq_ok`, `bind_eq_error` — the steps of a sequence that succeeds, and of
      one that fails,
    • `mapM_cons_eq_ok` — the members of a traversal that succeeds,
    • `mapM_eq_error_iff` — a traversal fails at its first member that fails,
    • `FailsOnly` — what a computation can fail with, step by step.
-/
namespace TermMarkup

variable {ε α β : Type}

theorem bind_eq_ok {x : Except ε α} {f : α → Except ε β} {b : β} :
    x >>= f = .ok b ↔ ∃ a, x = .ok a ∧ f a = .ok b := by
  cases x with
  | error e => constructor <;> simp [bind, Except.bind]
  | ok a =>
    constructor
    · intro h
      exact ⟨a, rfl, h⟩
    · rintro ⟨a', h, hf⟩
      obtain rfl := Except.ok.inj h
      exact hf

theorem bind_eq_error {x : Except ε α} {f : α → Except ε β} {e : ε} :
    x >>= f = .error e ↔ x = .error e ∨ ∃ a, x = .ok a ∧ f a = .error e := by
  cases x with
  | error e' => constructor <;> simp [bind, Except.bind]
  | ok a =>
    constructor
    · intro h
      exact .inr ⟨a, rfl, h⟩
    · rintro (h | ⟨a', h, hf⟩)
      · exact nomatch h
      · obtain rfl := Except.ok.inj h
        exact hf

/-- A last step that cannot fail leaves the faults as they are. -/
theorem map_eq_error {x : Except ε α} {g : α → β} {e : ε} :
    x.map g = .error e ↔ x = .error e := by
  cases x with
  | error e' =>
    show Except.error e' = Except.error e ↔ _
    rw [Except.error.injEq, Except.error.injEq]
  | ok a => exact ⟨fun h => (nomatch h), fun h => (nomatch h)⟩

/-- A computation succeeds if it does not fail. -/
theorem exists_eq_ok_iff {x : Except ε α} : (∃ a, x = .ok a) ↔ ∀ e, x ≠ .error e := by
  cases x with
  | error e => exact ⟨fun ⟨a, h⟩ => (nomatch h), fun h => absurd rfl (h e)⟩
  | ok a => exact ⟨fun _ _ h => (nomatch h), fun _ => ⟨a, rfl⟩⟩

/-- Faults of another kind in the place of the faults leave the results as they are. -/
theorem mapError_eq_ok {ε' : Type} {x : Except ε α} {f : ε → ε'} {a : α} :
    x.mapError f = .ok a ↔ x = .ok a := by
  cases x with
  | error e => exact ⟨fun h => (nomatch h), fun h => (nomatch h)⟩
  | ok a' => exact ⟨fun h => congrArg _ (Except.ok.inj h), fun h => congrArg _ (Except.ok.inj h)⟩

theorem mapError_eq_error {ε' : Type} {x : Except ε α} {f : ε → ε'} {e' : ε'} :
    x.mapError f = .error e' ↔ ∃ e, e' = f e ∧ x = .error e := by
  cases x with
  | error e =>
    constructor
    · intro h
      exact ⟨e, (Except.error.inj h).symm, rfl⟩
    · rintro ⟨e, rfl, h⟩
      rw [Except.error.inj h]
      rfl
  | ok a => exact ⟨fun h => (nomatch h), fun ⟨_, _, h⟩ => (nomatch h)⟩

theorem ok_bind (a : α) (f : α → Except ε β) : Except.ok a >>= f = f a := rfl

theorem mapM_nil_eq_ok {f : α → Except ε β} {ys : List β} : [].mapM f = .ok ys ↔ ys = [] := by
  rw [List.mapM_nil]
  exact ⟨fun h => (Except.ok.inj h).symm, fun h => congrArg Except.ok h.symm⟩

/-- A traversal succeeds at its first member and at the others. -/
theorem mapM_cons_eq_ok {f : α → Except ε β} {x : α} {xs : List α} {ys : List β} :
    (x :: xs).mapM f = .ok ys ↔ ∃ y rest, f x = .ok y ∧ xs.mapM f = .ok rest ∧ ys = y :: rest := by
  rw [List.mapM_cons]
  constructor
  · intro h
    obtain ⟨y, hy, h⟩ := bind_eq_ok.mp h
    obtain ⟨rest, hrest, h⟩ := bind_eq_ok.mp h
    exact ⟨y, rest, hy, hrest, (Except.ok.inj h).symm⟩
  · rintro ⟨y, rest, hy, hrest, rfl⟩
    rw [hy, ok_bind, hrest]
    rfl

/-- A traversal gives nothing only of nothing. -/
theorem mapM_eq_ok_nil {f : α → Except ε β} {xs : List α} {ys : List β} (h : xs.mapM f = .ok ys) :
    ys = [] ↔ xs = [] := by
  cases xs with
  | nil => exact iff_of_true (mapM_nil_eq_ok.mp h) rfl
  | cons x xs =>
    obtain ⟨y, rest, -, -, rfl⟩ := mapM_cons_eq_ok.mp h
    exact iff_of_false (List.cons_ne_nil _ _) (List.cons_ne_nil _ _)

/-- Each result of a successful traversal is the result of a member. -/
theorem exists_of_mapM_eq_ok {f : α → Except ε β} {xs : List α} {ys : List β}
    (h : xs.mapM f = .ok ys) : ∀ y ∈ ys, ∃ x ∈ xs, f x = .ok y := by
  induction xs generalizing ys with
  | nil =>
    obtain rfl := mapM_nil_eq_ok.mp h
    simp
  | cons x xs ih =>
    obtain ⟨y, rest, hy, hrest, rfl⟩ := mapM_cons_eq_ok.mp h
    intro z hz
    rcases List.mem_cons.mp hz with rfl | hz
    · exact ⟨x, List.mem_cons_self, hy⟩
    · obtain ⟨w, hw, hf⟩ := ih hrest z hz
      exact ⟨w, List.mem_cons_of_mem _ hw, hf⟩

/-- Each member of a successful traversal has a result. -/
theorem forall_of_mapM_eq_ok {f : α → Except ε β} {xs : List α} {ys : List β}
    (h : xs.mapM f = .ok ys) : ∀ x ∈ xs, ∃ y, f x = .ok y := by
  induction xs generalizing ys with
  | nil => simp
  | cons x xs ih =>
    obtain ⟨y, rest, hy, hrest, rfl⟩ := mapM_cons_eq_ok.mp h
    intro z hz
    rcases List.mem_cons.mp hz with rfl | hz
    · exact ⟨y, hy⟩
    · exact ih hrest z hz

/-- **A traversal that tests its members**: it succeeds if all of them pass, and its results are
theirs. -/
theorem mapM_eq_ok_iff {f : α → Except ε β} {P : α → Prop} {g : α → β}
    (h : ∀ x y, f x = .ok y ↔ P x ∧ y = g x) {xs : List α} {ys : List β} :
    xs.mapM f = .ok ys ↔ (∀ x ∈ xs, P x) ∧ ys = xs.map g := by
  induction xs generalizing ys with
  | nil =>
    rw [mapM_nil_eq_ok]
    simp
  | cons x xs ih =>
    rw [mapM_cons_eq_ok, List.forall_mem_cons, List.map_cons]
    constructor
    · rintro ⟨y, rest, hy, hrest, rfl⟩
      obtain ⟨hx, rfl⟩ := (h x y).mp hy
      obtain ⟨hall, rfl⟩ := ih.mp hrest
      exact ⟨⟨hx, hall⟩, rfl⟩
    · rintro ⟨⟨hx, hall⟩, rfl⟩
      exact ⟨g x, xs.map g, (h x _).mpr ⟨hx, rfl⟩, ih.mpr ⟨hall, rfl⟩, rfl⟩

/-- **A traversal fails at its first member that fails.** -/
theorem mapM_eq_error_iff {f : α → Except ε β} {xs : List α} {e : ε} :
    xs.mapM f = .error e ↔ ∃ before x after, xs = before ++ x :: after
      ∧ (∀ y ∈ before, ∃ z, f y = .ok z) ∧ f x = .error e := by
  induction xs with
  | nil =>
    rw [List.mapM_nil]
    exact ⟨fun h => (nomatch h), fun ⟨before, x, after, h, _⟩ => absurd h.symm (by simp)⟩
  | cons x xs ih =>
    rw [List.mapM_cons, bind_eq_error]
    constructor
    · rintro (hx | ⟨z, hz, h⟩)
      · exact ⟨[], x, xs, rfl, by simp, hx⟩
      · rcases bind_eq_error.mp h with hrest | ⟨zs, -, h⟩
        · obtain ⟨before, y, after, rfl, hbefore, hy⟩ := ih.mp hrest
          exact ⟨x :: before, y, after, rfl, List.forall_mem_cons.mpr ⟨⟨z, hz⟩, hbefore⟩, hy⟩
        · exact nomatch h
    · rintro ⟨before, y, after, hxs, hbefore, hy⟩
      cases before with
      | nil =>
        obtain ⟨rfl, -⟩ := List.cons.inj hxs
        exact .inl hy
      | cons b before =>
        obtain ⟨rfl, rfl⟩ := List.cons.inj hxs
        obtain ⟨⟨z, hz⟩, hbefore⟩ := List.forall_mem_cons.mp hbefore
        have hrest := ih.mpr ⟨before, y, after, rfl, hbefore, hy⟩
        exact .inr ⟨z, hz, bind_eq_error.mpr (.inl hrest)⟩

/-! ## Failing only in some ways. -/

/-- The computation fails with no other errors than those of `P`. -/
def FailsOnly (P : ε → Prop) (x : Except ε α) : Prop := ∀ e, x = .error e → P e

namespace FailsOnly

variable {P Q : ε → Prop} {x : Except ε α} {f : α → Except ε β}

theorem ok (a : α) : FailsOnly P (Except.ok a : Except ε α) := fun _ h => nomatch h

theorem error {e : ε} (h : P e) : FailsOnly P (Except.error e : Except ε α) := by
  intro e' he
  obtain rfl := Except.error.inj he
  exact h

theorem imp (h : ∀ e, P e → Q e) (hx : FailsOnly P x) : FailsOnly Q x := fun e he => h e (hx e he)

/-- **A sequence fails as one of its steps does.** -/
theorem bind (hx : FailsOnly P x) (hf : ∀ a, x = .ok a → FailsOnly P (f a)) :
    FailsOnly P (x >>= f) := by
  cases x with
  | error e => exact error (hx e rfl)
  | ok a => exact hf a rfl

/-- A last step that cannot fail adds nothing. -/
theorem bind_pure (hx : FailsOnly P x) (g : α → β) : FailsOnly P (x >>= fun a => pure (g a)) :=
  hx.bind fun _ _ => ok _

/-- **A traversal fails as it does at some member.** -/
theorem mapM {xs : List α} (h : ∀ x ∈ xs, FailsOnly P (f x)) : FailsOnly P (xs.mapM f) := by
  induction xs with
  | nil =>
    rw [List.mapM_nil]
    exact ok []
  | cons x xs ih =>
    rw [List.mapM_cons]
    refine (h x List.mem_cons_self).bind fun y _ => ?_
    exact (ih fun z hz => h z (List.mem_cons_of_mem _ hz)).bind_pure _

end FailsOnly

end TermMarkup
