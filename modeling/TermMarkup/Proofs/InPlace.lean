/-
  TermMarkup.Proofs.InPlace
  ─────────────────────────
  A STACK THAT IS CHANGED IN PLACE.  Here the stack is one store that operations
  write to, entry by entry, and a fault ends an operation with the store as it is
  by then: nothing is taken back.  A token whose fault came after its first write
  would leave half of its work behind.  None does: a tag resolves ALL its words
  and a code is read in FULL before the first write, and a close cannot fail.
  Hence working in place comes to the same as `Stack.apply`, which gives a new
  stack or none, and a token with a fault is as good as not given.

    • `Work` — computations on a store, with what they leave after a fault,
    • `apply_on` — a token in place does what `Stack.apply` says,
    • `Action.run` — any steps on a stack, those after a fault included,
    • `failing_token_keeps_stack` — a fault leaves no trace on the stack.
-/
import TermMarkup.Proofs.Outcome
import TermMarkup.Stack
import Mathlib.Data.List.Basic

namespace TermMarkup

/-! ## §1. Computations on a store. -/

/-- A computation that changes a stack in place.  A fault ends it and KEEPS the stack as it is by
then. -/
abbrev Work (α : Type) : Type := ExceptT Fault (StateM Stack) α

namespace Work

variable {α β : Type}

/-- The outcome of a computation that starts from `s`, and the stack that it leaves. -/
def on (work : Work α) (s : Stack) : Except Fault α × Stack := work.run.run s

/-- A computation that has nothing to do with the stack. -/
def outcome (x : Except Fault α) : Work α := ExceptT.mk (pure x)

theorem on_modify (f : Stack → Stack) (s : Stack) :
    (modify f : Work PUnit).on s = (.ok ⟨⟩, f s) := rfl

theorem on_outcome (x : Except Fault α) (s : Stack) : (outcome x).on s = (x, s) := rfl

variable {x : Work α} {f : α → Work β} {s s' : Stack}

/-- A sequence goes on from the stack that its first step leaves. -/
theorem on_bind_ok {a : α} (h : x.on s = (.ok a, s')) : (x >>= f).on s = (f a).on s' := by
  show (match x.on s with | (a, s') => (ExceptT.bindCont f a).run s') = _
  rw [h]
  rfl

/-- A sequence whose first step has a fault leaves the stack that this step leaves. -/
theorem on_bind_error {fault : Fault} (h : x.on s = (.error fault, s')) :
    (x >>= f).on s = (.error fault, s') := by
  show (match x.on s with | (a, s') => (ExceptT.bindCont f a).run s') = _
  rw [h]
  rfl

/-! ## §2. Tokens in place. -/

/-- Gives out the next group. -/
def takeGroup : Work Int := do
  modify fun s => { s with lastGroup := s.lastGroup + 1 }
  return (← get).lastGroup

/-- Pushes the pairs of a word one after the other; gives the codes to write. -/
def pushPairs (word : Text) (group : Int) : List StylePair → Work Text
  | [] => return []
  | p :: ps => do
    modify (·.push ⟨word, p.opens, p.closes, .markup, group⟩)
    return p.opens ++ (← pushPairs word group ps)

/-- Pushes the pairs of each word in a group of its own. -/
def pushWords : List (Text × List StylePair) → Work Text
  | [] => return []
  | (word, pairs) :: rest => do
    let codes ← pushPairs word (← takeGroup) pairs
    return codes ++ (← pushWords rest)

/-- Opens the words of a tag. -/
def openTag (theme : Theme) (tag : Text) (words : List Text) : Work Text := do
  let resolved ← words.mapM fun word => return (word, ← outcome (Style.resolve theme tag word))
  pushWords resolved

/-- Closes a name; gives the removed entries. -/
def close (name : Text) : Work (List Entry) := do
  let (removed, s) := (← get).close name
  set s
  return removed

/-- Closes several names, one after the other. -/
def closeAll : List Text → Work (List Entry)
  | [] => return []
  | name :: rest => do
    let removed ← close name
    return removed ++ (← closeAll rest)

/-- Closes the words of a tag.  Where nothing goes, nothing is written. -/
def closeTag (words : List Text) : Work Text := do
  let before := (← get).entries
  let removed ← closeAll words
  if removed.isEmpty then return []
  let closed := before.filter fun e => removed.contains e
  let restored := (← get).entries.filter fun e => (closed.map Entry.closes).contains e.closes
  return closings closed ++ openings restored

/-- Lets the effects of a code act, one after the other. -/
def applyCode (code : Text) : Work Text := do
  let effects ← outcome (Effect.ofCode code)
  effects.forM fun e => modify (·.applyEffect e)
  return code

/-- Lets a token act on the stack; gives the codes to write. -/
def apply (theme : Theme) : Token → Work Text
  | .literal _ => throw .literalApplied
  | .tagOpen source words => openTag theme source words
  | .tagClose _ words => closeTag words
  | .codeOpen code _ | .codeClose code => applyCode code

/-! ## §3. What tokens leave. -/

variable {theme : Theme}

theorem pushPairs_on (word : Text) (group : Int) (pairs : List StylePair) (s : Stack) :
    (pushPairs word group pairs).on s = (.ok (pairs.flatMap StylePair.opens),
      { s with entries := s.entries
          ++ pairs.map fun p => ⟨word, p.opens, p.closes, .markup, group⟩ }) := by
  induction pairs generalizing s with
  | nil =>
    rw [List.map_nil, List.append_nil]
    rfl
  | cons p ps ih =>
    show (modify _ >>= fun _ => pushPairs word group ps >>= _ : Work Text).on s = _
    rw [on_bind_ok (on_modify _ s), on_bind_ok (ih _), List.map_cons, Stack.push, List.append_assoc]
    rfl

/-- **Pushing resolved words one pair at a time** opens them word by word. -/
theorem pushWords_on (resolved : List (Text × List StylePair)) (s : Stack) :
    (pushWords resolved).on s
      = (.ok (resolved.flatMap fun (_, pairs) => pairs.flatMap StylePair.opens),
          resolved.foldl (fun s (word, pairs) => s.openWord word pairs) s) := by
  induction resolved generalizing s with
  | nil => rfl
  | cons w rest ih =>
    obtain ⟨word, pairs⟩ := w
    have hgroup : takeGroup.on s
        = (.ok (s.lastGroup + 1), { s with lastGroup := s.lastGroup + 1 }) := rfl
    have hword : (pushPairs word (s.lastGroup + 1) pairs).on { s with lastGroup := s.lastGroup + 1 }
        = (.ok (pairs.flatMap StylePair.opens), s.openWord word pairs) := pushPairs_on _ _ _ _
    show (takeGroup >>= fun group => pushPairs word group pairs >>= _ : Work Text).on s = _
    rw [on_bind_ok hgroup, on_bind_ok hword, on_bind_ok (ih _)]
    rfl

/-- Resolving words one by one touches no stack. -/
theorem resolveWords_on (theme : Theme) (tag : Text) (words : List Text) (s : Stack) :
    (words.mapM fun word => return (word, ← outcome (Style.resolve theme tag word))
      : Work _).on s = (Stack.resolveWords theme tag words, s) := by
  unfold Stack.resolveWords
  induction words with
  | nil => rfl
  | cons word rest ih =>
    rw [List.mapM_cons, List.mapM_cons]
    cases Style.resolve theme tag word with
    | error fault => rfl
    | ok pairs =>
      have hword : (return (word, ← outcome (.ok pairs)) : Work _).on s = (.ok (word, pairs), s) :=
        rfl
      rw [on_bind_ok hword, ok_bind]
      cases hrest : rest.mapM fun word => (return (word, ← Style.resolve theme tag word)
          : Except Fault (Text × List StylePair)) with
      | error fault => exact on_bind_error (hrest ▸ ih)
      | ok resolved => exact on_bind_ok (hrest ▸ ih)

theorem closeAll_on (names : List Text) (s : Stack) :
    (closeAll names).on s = (.ok (s.closeAll names).1, (s.closeAll names).2) := by
  induction names generalizing s with
  | nil => rfl
  | cons name rest ih =>
    have hclose : (close name).on s = (.ok (s.close name).1, (s.close name).2) := rfl
    show (close name >>= fun removed => closeAll rest >>= _ : Work _).on s = _
    rw [on_bind_ok hclose, on_bind_ok (ih _)]
    rfl

/-- Closing a tag in place closes the same entries and writes the same codes. -/
theorem closeTag_on (words : List Text) (s : Stack) :
    (closeTag words).on s = (.ok (s.closeTag words).1, (s.closeTag words).2) := by
  set removed := (s.closeAll words).1 with hremoved
  set after := (s.closeAll words).2 with hafter
  set closed := s.entries.filter fun e => removed.contains e with hclosed
  have hcodes : s.closeTag words = (closings closed ++ openings
      (after.entries.filter fun e => (closed.map Entry.closes).contains e.closes), after) := rfl
  rw [hcodes]
  show (closeAll words >>= _ : Work Text).on s = _
  rw [on_bind_ok (closeAll_on words s), ← hremoved, ← hafter]
  cases hempty : removed.isEmpty with
  | true =>
    -- nothing goes, so there is nothing to close and nothing to restore
    have hnone : removed = [] := List.isEmpty_iff.mp hempty
    have hstays : closed = [] := by simp [hclosed, hnone]
    have hrestored : (after.entries.filter fun e =>
        (([] : List Entry).map Entry.closes).contains e.closes) = [] :=
      List.filter_eq_nil_iff.mpr fun e _ => by simp
    rw [hstays, hrestored]
    rfl
  | false => rfl

theorem applyEffects_on (es : List Effect) (s : Stack) :
    (es.forM fun e => modify (·.applyEffect e) : Work PUnit).on s
      = (.ok ⟨⟩, es.foldl Stack.applyEffect s) := by
  induction es generalizing s with
  | nil => rfl
  | cons e es ih =>
    show (modify _ >>= fun _ => es.forM _ : Work PUnit).on s = _
    rw [on_bind_ok (on_modify _ s), ih]
    rfl

/-- What a computation that gives a new stack or a fault does to a store: after a fault the stack is
as it was. -/
def settled {α : Type} (s : Stack) : Except Fault (α × Stack) → Except Fault α × Stack
  | .ok (a, s') => (.ok a, s')
  | .error fault => (.error fault, s)

theorem applyCode_on (code : Text) (s : Stack) :
    (applyCode code).on s = settled s (return (code, ← s.applyCode code)) := by
  unfold applyCode Stack.applyCode
  cases Effect.ofCode code with
  | error fault => rfl
  | ok es =>
    rw [on_bind_ok (on_outcome _ s), on_bind_ok (applyEffects_on es s)]
    rfl

/-- **A token in place** leaves the stack that `Stack.apply` gives, and after a fault the stack as
it was. -/
theorem apply_on (tok : Token) (s : Stack) :
    (apply theme tok).on s = settled s (s.apply theme tok) := by
  cases tok with
  | literal t => rfl
  | tagOpen source words =>
    have hwords := resolveWords_on theme source words s
    show (_ >>= pushWords : Work Text).on s
      = settled s (Stack.resolveWords theme source words >>= _)
    cases hresolved : Stack.resolveWords theme source words with
    | error fault => exact on_bind_error (hresolved ▸ hwords)
    | ok resolved => exact (on_bind_ok (hresolved ▸ hwords)).trans (pushWords_on resolved s)
  | tagClose source words => exact closeTag_on words s
  | codeOpen code closes => exact applyCode_on code s
  | codeClose code => exact applyCode_on code s

end Work

/-! ## §4. Steps on a stack. -/

namespace Stack

/-- A step on a stack. -/
inductive Action where
  | apply (token : Token)
  | push (entry : Entry)
  | close (name : Text)
  | clear
  /-- Asks for the opening codes of all entries. -/
  | snapshot
  /-- Asks for the codes that close all entries. -/
  | closings
  deriving DecidableEq, Repr

/-- What a step answers. -/
inductive Answer where
  | done
  | codes (t : Text)
  | opened (ts : List Text)
  | removed (entries : List Entry)
  deriving DecidableEq, Repr

/-- A step in place. -/
def Action.work (theme : Theme) : Action → Work Answer
  | apply token => return .codes (← Work.apply theme token)
  | push entry => do
    modify (·.push entry)
    return .done
  | close name => return .removed (← Work.close name)
  | clear => do
    modify Stack.clear
    return .done
  | snapshot => return .opened ((← get).entries.map Entry.opens)
  | closings => return .codes (TermMarkup.closings (← get).entries)

/-- Takes steps one after the other; gives their answers and the last stack.  A fault is an answer
too, and the next step goes on from the stack that it leaves. -/
def run (theme : Theme) : List Action → Stack → List (Except Fault Answer) × Stack
  | [], s => ([], s)
  | action :: rest, s =>
    let (answer, s) := (action.work theme).on s
    let (answers, s) := run theme rest s
    (answer :: answers, s)

variable {theme : Theme}

theorem run_cons (action : Action) (rest : List Action) (s : Stack) :
    run theme (action :: rest) s
      = (((action.work theme).on s).1 :: (run theme rest ((action.work theme).on s).2).1,
          (run theme rest ((action.work theme).on s).2).2) := rfl

/-- **Later steps go on from the stack that earlier ones leave.** -/
theorem run_append (before later : List Action) (s : Stack) :
    run theme (before ++ later) s
      = ((run theme before s).1 ++ (run theme later (run theme before s).2).1,
          (run theme later (run theme before s).2).2) := by
  induction before generalizing s with
  | nil => rfl
  | cons action before ih =>
    rw [List.cons_append, run_cons, ih, run_cons]
    rfl

/-- Each step has one answer. -/
theorem length_run (actions : List Action) (s : Stack) :
    (run theme actions s).1.length = actions.length := by
  induction actions generalizing s with
  | nil => rfl
  | cons action actions ih => exact congrArg (· + 1) (ih _)

/-- **A token that fails leaves the stack as it was.**  Whatever steps come before it, a token that
has a fault in place has this fault by `Stack.apply`; the entries, their order and the last group
stay; and the steps behind it have the answers, and leave the stack, that they have and leave
without the token. -/
theorem failing_token_keeps_stack {s : Stack} {before : List Action} {token : Token}
    {fault : Fault} (later : List Action)
    (h : ((Work.apply theme token).on (run theme before s).2).1 = .error fault) :
    (run theme before s).2.apply theme token = .error fault
      ∧ ((Work.apply theme token).on (run theme before s).2).2 = (run theme before s).2
      ∧ ∃ earlier answers last, earlier.length = before.length
        ∧ run theme (before ++ later) s = (earlier ++ answers, last)
        ∧ run theme (before ++ .apply token :: later) s
            = (earlier ++ .error fault :: answers, last) := by
  set here := (run theme before s).2 with hhere
  have hon : (Work.apply theme token).on here = Work.settled here (here.apply theme token) :=
    Work.apply_on token here
  cases happly : here.apply theme token with
  | ok result =>
    rw [hon, happly] at h
    exact nomatch h
  | error fault' =>
    rw [happly] at hon
    rw [hon] at h
    obtain rfl := Except.error.inj h
    refine ⟨rfl, congrArg Prod.snd hon, (run theme before s).1, (run theme later here).1,
      (run theme later here).2, length_run before s, run_append before later s, ?_⟩
    have hstep : ((Action.apply token).work theme).on here = (.error fault', here) :=
      Work.on_bind_error hon
    rw [run_append, ← hhere, run_cons, hstep]

/-- A tag with a good word in front of a bad one, on a stack with a tag and a code: the good word
leaves nothing, and closing the same words later closes the first tag's. -/
theorem failing_token_keeps_stack_halfway :
    let bold := Token.tagOpen "{bold red}".toList ["bold".toList, "red".toList]
    let failing := Token.tagOpen "{bold nosuch}".toList ["bold".toList, "nosuch".toList]
    let before : List Action :=
      [.apply bold, .apply (.codeOpen "\x1b[34m".toList "\x1b[39m".toList), .apply failing,
        .close "red".toList]
    let later : List Action := [.apply (.tagClose "{/bold}".toList ["bold".toList]), .snapshot]
    let s := (run Theme.standard before .empty).2
    let fault := Fault.unknownStyle "nosuch".toList "{bold nosuch}".toList
    ((Work.apply Theme.standard failing).on s).1 = .error fault
      ∧ s.apply Theme.standard failing = .error fault
      ∧ ((Work.apply Theme.standard failing).on s).2 = s
      ∧ ∃ earlier answers last, earlier.length = before.length
        ∧ run Theme.standard (before ++ later) .empty = (earlier ++ answers, last)
        ∧ run Theme.standard (before ++ .apply failing :: later) .empty
            = (earlier ++ .error fault :: answers, last) := by
  intro bold failing before later s fault
  have h : ((Work.apply Theme.standard failing).on s).1 = .error fault := by decide +kernel
  exact ⟨h, failing_token_keeps_stack later h⟩

end Stack

end TermMarkup
