/-
  TermMarkup.Proofs.Terminal
  ──────────────────────────
  A TERMINAL, as far as styles go.  It reads a text from left to right: an SGR
  code changes its PEN by the effects of the code, and every other character is
  shown with the pen as it is.  A code that cannot be read is a fault, so that
  nothing is said about what a terminal does with it.

    • `Text.signals` — what a terminal takes from a text,
    • `Pen.act`, `Pen.after` — one effect, and a whole text, on a pen,
    • `Text.displayed` — the characters with the pens that they are shown with,
    • `Text.Emits` — the signals of a text, WHATEVER follows it; this is what
      makes signals of joined texts the joined signals.
-/
import TermMarkup.Proofs.Scan
import TermMarkup.Sgr.Effect
import TermMarkup.Text.Blank

namespace TermMarkup

/-! ## §1. Signals. -/

/-- What a terminal takes from a text, one at a time. -/
inductive Signal where
  | glyph (c : Char)
  | effect (e : Effect)
  deriving DecidableEq, Repr

/-- The signals of a piece. -/
def Piece.signals : Piece → Except Fault (List Signal)
  | .plain c => .ok [.glyph c]
  | .mark m => return (← Effect.ofCode m.source).map .effect

/-- The signals of pieces, in order. -/
def signalsOf : List Piece → Except Fault (List Signal)
  | [] => .ok []
  | p :: ps => return (← p.signals) ++ (← signalsOf ps)

/-- The signals of a text. -/
def Text.signals (t : Text) : Except Fault (List Signal) := signalsOf (pieces Mark.code? t)

/-! ## §2. Pens. -/

/-- The style state of a terminal: for each dimension the code that switched it on, if it is on. -/
abbrev Pen := Dimension → Option Text

namespace Pen

/-- Everything off. -/
def blank : Pen := fun _ => none

/-- An effect on a pen.  Switching a channel off switches off every dimension that closes by it. -/
def act (pen : Pen) : Effect → Pen
  | .reset => blank
  | .switchOn dimension params => fun d => if d = dimension then some (Sgr.code params) else pen d
  | .switchOff channel => fun d => if d.channel = channel then none else pen d

/-- The pen after signals. -/
def follow (pen : Pen) : List Signal → Pen
  | [] => pen
  | .glyph _ :: rest => pen.follow rest
  | .effect e :: rest => (pen.act e).follow rest

/-- The glyphs among signals, each with the pen that it is shown with. -/
def display (pen : Pen) : List Signal → List (Char × Pen)
  | [] => []
  | .glyph c :: rest => (c, pen) :: pen.display rest
  | .effect e :: rest => (pen.act e).display rest

/-- The pen after a text. -/
def after (pen : Pen) (t : Text) : Except Fault Pen := return pen.follow (← t.signals)

end Pen

/-- What a terminal shows of a text, read with everything off at its start. -/
def Text.displayed (t : Text) : Except Fault (List (Char × Pen)) :=
  return Pen.blank.display (← t.signals)

/-- What a terminal shows of a text, blanks left out. -/
def Text.displayedInk (t : Text) : Except Fault (List (Char × Pen)) :=
  return (← t.displayed).filter fun shown => !isBlank shown.1

namespace Pen

theorem follow_append (pen : Pen) (a b : List Signal) :
    pen.follow (a ++ b) = (pen.follow a).follow b := by
  induction a generalizing pen with
  | nil => rfl
  | cons s a ih => cases s <;> exact ih _

theorem display_append (pen : Pen) (a b : List Signal) :
    pen.display (a ++ b) = pen.display a ++ (pen.follow a).display b := by
  induction a generalizing pen with
  | nil => rfl
  | cons s a ih =>
    cases s with
    | glyph c => exact congrArg _ (ih pen)
    | effect e => exact ih _

@[simp] theorem follow_effects (pen : Pen) (es : List Effect) :
    pen.follow (es.map .effect) = es.foldl act pen := by
  induction es generalizing pen with
  | nil => rfl
  | cons e es ih => exact ih _

@[simp] theorem display_effects (pen : Pen) (es : List Effect) :
    pen.display (es.map .effect) = [] := by
  induction es generalizing pen with
  | nil => rfl
  | cons e es ih => exact ih _

@[simp] theorem follow_glyphs (pen : Pen) (u : Text) : pen.follow (u.map .glyph) = pen := by
  induction u with
  | nil => rfl
  | cons c u ih => exact ih

@[simp] theorem display_glyphs (pen : Pen) (u : Text) :
    pen.display (u.map .glyph) = u.map fun c => (c, pen) := by
  induction u with
  | nil => rfl
  | cons c u ih => exact congrArg _ ih

end Pen

/-! ## §3. Texts whose signals do not depend on what follows. -/

/-- The text gives the signals `ss`, whatever text follows it. -/
def Text.Emits (t : Text) (ss : List Signal) : Prop :=
  ∀ rest : Text, Text.signals (t ++ rest) = return ss ++ (← Text.signals rest)

namespace Text.Emits

theorem signals {t : Text} {ss : List Signal} (h : Emits t ss) : t.signals = .ok ss := by
  have hnil : Text.signals [] = .ok [] := by
    unfold Text.signals pieces
    rw [scan]
    rfl
  have := h []
  rw [List.append_nil, hnil] at this
  rw [this]
  show Except.ok (ss ++ []) = _
  rw [List.append_nil]

theorem nil : Emits [] [] := by
  intro rest
  show Text.signals rest = _
  cases Text.signals rest <;> rfl

theorem append {a b : Text} {as bs : List Signal} (ha : Emits a as) (hb : Emits b bs) :
    Emits (a ++ b) (as ++ bs) := by
  intro rest
  -- both texts emit whatever follows, so `b` may follow `a`
  rw [List.append_assoc, ha, hb]
  cases Text.signals rest with
  | error f => rfl
  | ok rs => exact congrArg Except.ok (List.append_assoc as bs rs).symm

/-- **Text without the escape character is shown as it is.** -/
theorem plain {u : Text} (hu : Sgr.escape ∉ u) : Emits u (u.map .glyph) := by
  intro rest
  unfold Text.signals pieces
  rw [scan_code?_plain false hu]
  induction u with
  | nil =>
    show signalsOf (scan Mark.code? false rest) = _
    cases signalsOf (scan Mark.code? false rest) <;> rfl
  | cons c u ih =>
    have h := ih fun h => hu (List.mem_cons_of_mem _ h)
    show (do return [Signal.glyph c] ++ (← signalsOf (u.map Piece.plain ++ _))) = _
    rw [h]
    cases signalsOf (scan Mark.code? false rest) <;> rfl

/-- **A code that can be read gives its effects.** -/
theorem code {p : Text} {es : List Effect} (hp : p.all isParamChar = true)
    (he : Effect.ofCode (Sgr.code p) = .ok es) : Emits (Sgr.code p) (es.map .effect) := by
  intro rest
  unfold Text.signals pieces
  rw [scan_code?_code false hp]
  show (do return (← Piece.signals (.mark (.code p))) ++ (← signalsOf _)) = _
  have hm : Piece.signals (.mark (.code p)) = .ok (es.map .effect) := by
    show (do return (← Effect.ofCode (Sgr.code p)).map Signal.effect) = _
    rw [he]
    rfl
  rw [hm]
  rfl

theorem after {t : Text} {ss : List Signal} (h : Emits t ss) (pen : Pen) :
    pen.after t = .ok (pen.follow ss) := by
  unfold Pen.after
  rw [h.signals]
  rfl

theorem displayedInk {t : Text} {ss : List Signal} (h : Emits t ss) :
    t.displayedInk = .ok ((Pen.blank.display ss).filter fun shown => !isBlank shown.1) := by
  unfold Text.displayedInk Text.displayed
  rw [h.signals]
  rfl

end Text.Emits

end TermMarkup
