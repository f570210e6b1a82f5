/-
  TermMarkup.Sgr.Effect
  ─────────────────────
  THE EFFECTS OF A CODE, read from its parameters from left to right.  An
  extended color (38 or 48, then a mode) takes the parameters of its mode with
  it; a parameter that sets no tracked style has no effect.
-/
import TermMarkup.Sgr.Basic
import TermMarkup.Number.Integer

namespace TermMarkup

/-! ## §1. Effects. -/

/-- One effect of a code. -/
inductive Effect where
  /-- Everything off. -/
  | reset
  /-- A dimension on, by the code with parameters `params`. -/
  | switchOn (dimension : Dimension) (params : Text)
  /-- A channel off. -/
  | switchOff (channel : Channel)
  deriving DecidableEq, Repr

namespace Effect

/-- Whether the effect switches a dimension on. -/
def isOn : Effect → Bool
  | switchOn _ _ => true
  | _ => false

/-- The code that switches the dimension on, empty for the other effects. -/
def openCode : Effect → Text
  | switchOn _ params => Sgr.code params
  | _ => []

/-- The code that undoes an opening, or the code of the effect itself. -/
def closeCode : Effect → Text
  | reset => Sgr.reset
  | switchOn dimension _ => dimension.channel.closeCode
  | switchOff channel => channel.closeCode

/-! ## §2. Single parameters. -/

/-- The dimension that a basic color parameter sets: eight normal and eight bright colors each for
foreground and background. -/
def basicColor? (n : Int) : Option Dimension :=
  if 30 ≤ n ∧ n ≤ 37 ∨ 90 ≤ n ∧ n ≤ 97 then some .foreground
  else if 40 ≤ n ∧ n ≤ 47 ∨ 100 ≤ n ∧ n ≤ 107 then some .background
  else none

/-- The dimension whose extended color the parameter starts. -/
def extendedColor? (n : Int) : Option Dimension :=
  if n = Dimension.foreground.opening then some .foreground
  else if n = Dimension.background.opening then some .background
  else none

/-- The effect of a parameter that stands alone. -/
def ofNumber? (n : Int) : Option Effect :=
  if n = 0 then some .reset
  else match Dimension.switches.find? (fun d => n = d.opening) with
    | some d => some (.switchOn d (decimalOf n))
    | none => match Channel.all.find? (fun c => n = c.closing) with
      | some c => some (.switchOff c)
      | none => (basicColor? n).map fun d => .switchOn d (decimalOf n)

/-! ## §3. Parameter lists. -/

/-- The number that a parameter writes; an empty one is zero. -/
def paramValue (param : Text) : Except Fault Int :=
  if param.isEmpty then .ok 0 else Integer.read param

/-- The extended color of `dimension` in the given mode, from the parameters after its first one
(the mode itself included), and how many of them it takes.  Mode 5 is a palette index, mode 2 an
RGB triple; a color that is cut short or of another mode has no effect and takes its mode. -/
def extended (dimension : Dimension) (mode : Int) : List Text → Option Effect × Nat
  | _ :: index :: rest =>
    if mode = 5 then
      (some (.switchOn dimension
        (Text.join [';'] [digitsOf dimension.opening, ['5'], index])), 2)
    else match rest with
      | g :: b :: _ =>
        if mode = 2 then
          (some (.switchOn dimension
            (Text.join [';'] [digitsOf dimension.opening, ['2'], index, g, b])), 4)
        else (none, 1)
      | _ => (none, 1)
  | _ => (none, 1)

/-- The effects of a parameter list, in order. -/
def ofParams : List Text → Except Fault (List Effect)
  | [] => .ok []
  | param :: rest => do
    let n ← paramValue param
    match extendedColor? n with
    | none => return (ofNumber? n).toList ++ (← ofParams rest)
    | some dimension =>
      let mode ← paramValue (rest.headD [])
      let (effect, taken) := extended dimension mode rest
      return effect.toList ++ (← ofParams (rest.drop taken))
termination_by params => params.length
decreasing_by all_goals simp only [List.length_cons, List.length_drop]; omega

/-- The parameters of a text of the form of a code: between `ESC [` and a final `m`. -/
def paramsOf? (t : Text) : Option Text :=
  match Text.after? [Sgr.escape, '['] t with
  | some rest => if rest.getLast? = some 'm' then some rest.dropLast else none
  | none => none

/-- The effects of a code; a text that has not the form of a code has none. -/
def ofCode (t : Text) : Except Fault (List Effect) :=
  match paramsOf? t with
  | some params => ofParams (Text.fields ';' params)
  | none => .ok []

/-- Whether a code switches on at least one dimension. -/
def opens (t : Text) : Except Fault Bool := return (← ofCode t).any isOn

end Effect

end TermMarkup
