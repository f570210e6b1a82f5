/-
  TermMarkup.Proofs.ThemeLoading
  ──────────────────────────────
  A THEME THAT CANNOT BE LOADED.  A run of a command without a theme of its own
  takes the theme that the variable names.  What is wrong inside a theme file is
  reported as a usage error of the theme option: bytes that are no text, text
  that is no JSON, JSON that is no theme.  Only two things escape the report: a
  path that leads to no file which the system reads, and JSON with too many
  arrays and objects inside one another.

    • `ofMembers_failsOnly` — members that are no theme have a wrong value,
    • `Lookup.Escapes` — what a path leads to cannot be reported;
      `membersOfLookup_isReported_iff` sorts the faults by it,
    • `run_of_calls` — a run of a command loads the theme before anything else of
      the command,
    • `theme_fault_reported_or_escapes` — how such a run ends,
    • `missing_theme_crashes` — without the file it is a crash.
-/
import TermMarkup.CommandLine.Program
import TermMarkup.Proofs.Outcome

namespace TermMarkup

/-! ## §1. What is wrong with a theme file. -/

/-- The fault is reported as a usage error when a theme is loaded. -/
def Fault.IsReported (fault : Fault) : Prop := fault.kind = .value ∨ fault.kind = .encoding

namespace Theme

theorem setAll_failsOnly (theme : Theme) (members : List (Text × Json)) :
    FailsOnly (fun fault => fault.kind = .value) (setAll theme members) := by
  induction members generalizing theme with
  | nil => exact .ok theme
  | cons member rest ih =>
    obtain ⟨key, value⟩ := member
    unfold setAll
    cases Role.ofName? key with
    | none => exact .error rfl
    | some role =>
      cases value with
      | string style => exact ih _
      | _ => exact .error rfl

/-- **Members that are no theme** have unknown roles or a style that is no text. -/
theorem ofMembers_failsOnly (members : List (Text × Json)) :
    FailsOnly (fun fault => fault.kind = .value) (ofMembers members) := by
  unfold ofMembers
  dsimp only
  split
  · exact setAll_failsOnly standard _
  · exact .error rfl

/-- The text is JSON with more than `levels` arrays and objects inside one another. -/
def TooDeep (levels : Nat) (t : Text) : Prop :=
  Json.read levels t = .error .arrayTooDeep ∨ Json.read levels t = .error .objectTooDeep

variable {reader : JsonReader}

/-- **What is wrong with the text of a theme file** has to do with values, except for its depth. -/
theorem membersOfText_kind {path t : Text} {fault : Fault}
    (h : membersOfText reader path t = .error fault) :
    (TooDeep reader.levels t ∧ fault.kind = .depth)
      ∨ (¬TooDeep reader.levels t ∧ fault.kind = .value) := by
  unfold membersOfText at h
  unfold TooDeep
  cases hread : Json.read reader.levels t with
  | ok value =>
    rw [hread] at h
    refine .inr ⟨by simp, ?_⟩
    cases value with
    | object members => exact nomatch h
    | _ =>
      rw [← Except.error.inj h]
      rfl
  | error cause =>
    rw [hread] at h
    cases cause with
    | malformed | tooLong digits =>
      rw [← Except.error.inj h]
      exact .inr ⟨by simp, rfl⟩
    | arrayTooDeep | objectTooDeep =>
      rw [← Except.error.inj h]
      exact .inl ⟨by simp, rfl⟩

/-- Text that is too deep holds no members. -/
theorem membersOfText_of_tooDeep {path t : Text} (h : TooDeep reader.levels t) :
    ∃ fault, membersOfText reader path t = .error fault := by
  unfold membersOfText
  rcases h with h | h <;> rw [h] <;> exact ⟨_, rfl⟩

end Theme

/-- What a path leads to makes a fault that is not reported: it is no file that can be read, or a
file of JSON with more than `levels` arrays and objects inside one another. -/
def Lookup.Escapes (levels : Nat) : Lookup → Prop
  | .found (.file bytes) => ∃ t, Utf8.decode bytes = .ok t ∧ Theme.TooDeep levels t
  | _ => True

/-- The variable names a theme that makes a fault which is not reported. -/
def Surroundings.ThemeEscapes (around : Surroundings) : Prop :=
  ∃ path, around.themeVariable = some path ∧ path ≠ [] ∧ path.holdsNull = false
    ∧ (around.look (normalPath path)).Escapes around.reader.levels

namespace Theme

variable {reader : JsonReader} {path : Text} {found : Lookup}

/-- **The faults of a theme file**, sorted by what its path leads to. -/
theorem membersOfLookup_isReported_iff {fault : Fault}
    (h : membersOfLookup reader path found = .error fault) :
    fault.IsReported ↔ ¬found.Escapes reader.levels := by
  cases found with
  | missing | blocked | tooLong | unreadable permitted words | refused words =>
    rw [← Except.error.inj h]
    simp [Fault.IsReported, Fault.kind, Lookup.Escapes]
  | found entry =>
    cases entry with
    | directory =>
      rw [← Except.error.inj h]
      simp [Fault.IsReported, Fault.kind, Lookup.Escapes]
    | file bytes =>
      cases hdecode : Utf8.decode bytes with
      | error cause =>
        simp only [membersOfLookup, hdecode] at h
        rw [← Except.error.inj h]
        simp [Fault.IsReported, Fault.kind, Lookup.Escapes, hdecode]
      | ok t =>
        simp only [membersOfLookup, hdecode] at h
        rcases membersOfText_kind h with ⟨hdeep, hkind⟩ | ⟨hdeep, hkind⟩ <;>
          simp [Fault.IsReported, Lookup.Escapes, hdecode, hdeep, hkind]

/-- What escapes the report is a fault. -/
theorem membersOfLookup_of_escapes (h : found.Escapes reader.levels) :
    ∃ fault, membersOfLookup reader path found = .error fault := by
  cases found with
  | missing | blocked | tooLong | unreadable permitted words | refused words => exact ⟨_, rfl⟩
  | found entry =>
    cases entry with
    | directory => exact ⟨_, rfl⟩
    | file bytes =>
      obtain ⟨t, hdecode, hdeep⟩ := h
      simp only [membersOfLookup, hdecode]
      exact membersOfText_of_tooDeep hdeep

variable {around : Surroundings}

/-- Without a path of its own a run loads the theme that the variable names. -/
theorem load_of_variable (hpath : around.themeVariable = some path) (hne : path ≠ []) :
    load around none = (readMembers around path >>= ofMembers) := by
  unfold load sourcePath?
  rw [hpath]
  simp [hne]

/-- What escapes the report is a fault of reading the file. -/
theorem readMembers_of_escapes (hnull : path.holdsNull = false)
    (h : (around.look (normalPath path)).Escapes around.reader.levels) :
    ∃ fault, readMembers around path = .error fault := by
  unfold readMembers
  rw [hnull]
  exact membersOfLookup_of_escapes h

/-- **A theme that cannot be loaded** is reported exactly if it does not escape. -/
theorem load_isReported_iff {fault : Fault} (h : load around none = .error fault) :
    fault.IsReported ↔ ¬around.ThemeEscapes := by
  cases hpath : around.themeVariable with
  | none =>
    simp [load, sourcePath?, hpath] at h
  | some path =>
    by_cases hne : path = []
    · simp [load, sourcePath?, hpath, hne] at h
    · have hescapes : around.ThemeEscapes ↔ path.holdsNull = false
          ∧ (around.look (normalPath path)).Escapes around.reader.levels := by
        simp [Surroundings.ThemeEscapes, hpath, hne]
      rw [load_of_variable hpath hne] at h
      rw [hescapes]
      rcases bind_eq_error.mp h with hread | ⟨members, hread, hmembers⟩
      · -- the file cannot be read as an object
        unfold readMembers at hread
        by_cases hnull : path.holdsNull = true
        · rw [if_pos hnull] at hread
          rw [← Except.error.inj hread, hnull]
          simp [Fault.IsReported, Fault.kind]
        · rw [if_neg hnull] at hread
          rw [membersOfLookup_isReported_iff hread]
          simp [hnull]
      · -- it can, and the object is no theme
        have hvalue : fault.IsReported := .inl (ofMembers_failsOnly members fault hmembers)
        refine iff_of_true hvalue fun ⟨hnull, hescapes⟩ => ?_
        obtain ⟨cause, hcause⟩ := readMembers_of_escapes hnull hescapes
        exact nomatch hread.symm.trans hcause

/-- **A theme that escapes the report** cannot be loaded, and nothing is recorded of it. -/
theorem load_of_escapes (h : around.ThemeEscapes) :
    (∃ fault, load around none = .error fault) ∧ loadRecords around none = [] := by
  obtain ⟨path, hpath, hne, hnull, hescapes⟩ := h
  obtain ⟨fault, hread⟩ := readMembers_of_escapes hnull hescapes
  constructor
  · rw [load_of_variable hpath hne, hread]
    exact ⟨fault, rfl⟩
  · have hsource : sourcePath? none around.themeVariable = some path := by
      simp [sourcePath?, hpath, hne]
    unfold loadRecords
    rw [hsource]
    dsimp only
    rw [hread]

end Theme

/-! ## §2. The report. -/

/-- **Text without the escape character keeps its place** when control sequences are removed. -/
theorem ControlSequence.remove_append {u : Text} (hu : Sgr.escape ∉ u) (v : Text) :
    remove (u ++ v) = u ++ remove v := by
  induction u with
  | nil => rfl
  | cons c u ih =>
    have hc : c ≠ Sgr.escape := fun h => hu (h ▸ List.mem_cons_self)
    have hnone : length? (c :: (u ++ v)) = none := by
      unfold length?
      split
      · next h => exact absurd (List.cons.inj h).1 hc
      · rfl
    rw [List.cons_append, remove, hnone]
    exact congrArg (c :: ·) (ih fun h => hu (List.mem_cons_of_mem _ h))

namespace CommandLine

/-- How the report on a theme begins: with the program's usage and the name of the option. -/
def themeComplaint : Text :=
  "Usage: styledtext [OPTIONS] [COMMAND] [ARGS]...\n".toList
    ++ "Try 'styledtext --help' for help.\n\nError: Invalid value for --theme: ".toList

/-- The parts that every usage error is made of, as far as the message of the fault. -/
theorem themeComplaint_parts :
    themeComplaint = Subject.usage none ++ ("Try '".toList ++ (Subject.call none
      ++ (" --help' for help.\n\n".toList ++ ("Error: ".toList
        ++ ("Invalid value for ".toList ++ (OptionName.theme.long ++ ": ".toList)))))) := by
  unfold themeComplaint Subject.usage Subject.call Subject.forms programName OptionName.long
  simp

theorem usageError_theme (message : Text) :
    usageError none (invalidValue OptionName.theme.long message)
      = themeComplaint ++ (message ++ ['\n']) := by
  unfold usageError errorLine invalidValue
  rw [themeComplaint_parts]
  simp only [List.append_assoc]

/-- The beginning of the report holds no control sequence. -/
theorem escape_notMem_themeComplaint : Sgr.escape ∉ themeComplaint := by
  unfold themeComplaint
  rw [List.mem_append]
  simp [Sgr.escape]

/-- **The report names the option**; control sequences in the message are left out. -/
theorem misuse_theme (message : Text) :
    Outcome.misuse (usageError none (invalidValue OptionName.theme.long message))
      = { exitCode := 2, stdout := [],
          stderr := themeComplaint ++ ControlSequence.remove (message ++ ['\n']) } := by
  have hplain := ControlSequence.remove_append escape_notMem_themeComplaint (message ++ ['\n'])
  unfold Outcome.misuse
  rw [usageError_theme, hplain]

/-! ## §3. Runs of a command. -/

/-- The arguments call a command without a theme of their own: the program's options can be read and
are taken, the theme option is none of them, the first operand is the name of the command, and the
others are its arguments. -/
structure Calls (look : Text → Lookup) (args : List Text) (own : Arguments) (command : Command)
    (rest : List Text) : Prop where
  taken : readProgram look args = .ok own
  noTheme : own.value? .theme = none
  named : ∃ name, own.operands = name :: rest ∧ Command.ofName? name = some command

variable {around : Surroundings} {args rest : List Text} {own : Arguments} {command : Command}

/-- **The theme is loaded first**: only then the command's arguments are read. -/
theorem run_of_calls (h : Calls around.look args own command rest) :
    run around args = withTheme around own fun theme => command.start theme rest := by
  obtain ⟨name, hoperands, hname⟩ := h.named
  have hfind : findCommand around.look name own.operands = .ok command := by
    unfold findCommand
    rw [hname]
  unfold run
  rw [h.taken, ok_bind]
  simp only [hoperands]
  rw [← hoperands, hfind, ok_bind]
  rfl

/-- A run whose theme is loaded goes on to its command. -/
theorem run_of_loaded (h : Calls around.look args own command rest) {theme : Theme}
    (hload : Theme.load around none = .ok theme) :
    run around args = (((command.start theme rest).map
      (Outcome.after [Theme.useRecord none])).map
        (Outcome.after (Theme.loadRecords around none))).map (Outcome.logged own.logs) := by
  rw [run_of_calls h]
  unfold withTheme
  simp only [h.noTheme, hload]

/-- A run whose theme cannot be loaded is over. -/
theorem run_of_fault (h : Calls around.look args own command rest) {fault : Fault}
    (hload : Theme.load around none = .error fault) :
    run around args = .finished (((themeFailure fault).after
      (Theme.loadRecords around none)).logged own.logs) := by
  rw [run_of_calls h]
  unfold withTheme
  simp only [h.noTheme, hload]
  rfl

/-- **How a run ends whose theme cannot be loaded.**  With a theme the command is started.  Without,
the run ends with exit code 2 and an error that names the theme option, behind what the log holds of
the theme, unless the variable leads to no file that can be read or to JSON that is too deep; in
these cases, and in no others, it is a crash. -/
theorem theme_fault_reported_or_escapes (h : Calls around.look args own command rest) :
    (∀ theme, Theme.load around none = .ok theme →
        run around args = (((command.start theme rest).map
          (Outcome.after [Theme.useRecord none])).map
            (Outcome.after (Theme.loadRecords around none))).map (Outcome.logged own.logs))
      ∧ (∀ fault, Theme.load around none = .error fault → ¬around.ThemeEscapes →
        run around args = .finished
          { exitCode := 2, stdout := [],
            log := if own.logs then Theme.loadRecords around none else [],
            stderr := themeComplaint ++ ControlSequence.remove (fault.message ++ ['\n']) })
      ∧ (around.ThemeEscapes ↔
        ∃ fault, Theme.load around none = .error fault ∧ run around args = .finished
          { exitCode := 1, stdout := [], log := [], stderr := [], crash := some fault }) := by
  refine ⟨fun theme hload => run_of_loaded h hload, fun fault hload hescapes => ?_, ?_⟩
  · have hreported := (Theme.load_isReported_iff hload).mpr hescapes
    have hfailure : themeFailure fault = _ := (if_pos hreported).trans (misuse_theme _)
    rw [run_of_fault h hload, hfailure]
    simp only [Outcome.after, Outcome.logged, List.append_nil]
  · constructor
    · intro hescapes
      obtain ⟨⟨fault, hload⟩, hrecords⟩ := Theme.load_of_escapes hescapes
      have hnot : ¬fault.IsReported := by
        rw [Theme.load_isReported_iff hload]
        exact not_not_intro hescapes
      have hfailure : themeFailure fault = .crashed fault := if_neg hnot
      refine ⟨fault, hload, ?_⟩
      rw [run_of_fault h hload, hfailure, hrecords]
      simp only [Outcome.after, Outcome.logged, Outcome.crashed, List.append_nil, ite_self]
    · intro hcrash
      obtain ⟨fault, hload, hrun⟩ := hcrash
      refine Classical.byContradiction fun hescapes => ?_
      have hreported := (Theme.load_isReported_iff hload).mpr hescapes
      have hfailure : themeFailure fault = _ := (if_pos hreported).trans (misuse_theme _)
      -- a reported fault ends the run with another exit code
      rw [run_of_fault h hload, hfailure] at hrun
      have hcode := congrArg (fun pending => (Pending.outcome [] pending).exitCode) hrun
      simp [Pending.outcome, Outcome.after, Outcome.logged] at hcode

/-- A reader of JSON that goes as deep as a hundred arrays and objects. -/
def plainReader : JsonReader := ⟨100, fun _ => "Expecting value".toList⟩

/-- A variable that names a file, and the file holds the object `{"link":1}`, whose style is no
text. -/
def numberAround : Surroundings :=
  { look := Files.look [("t.json".toList, .file [123, 34, 108, 105, 110, 107, 34, 58, 49, 125])],
    themeVariable := some "t.json".toList, reader := plainReader }

/-- The program's arguments when `render x` is called with the log switched on. -/
def debugRender : Arguments :=
  { settings := [(.logLevel, "debug".toList)], operands := ["render".toList, "x".toList] }

/-- An object with a number for a style is no theme: the run ends with a report that says so, behind
the record that the file has been read. -/
theorem theme_fault_reported_or_escapes_number :
    Calls numberAround.look
        ["--log-level".toList, "debug".toList, "render".toList, "x".toList] debugRender .render
        ["x".toList]
      ∧ Theme.load numberAround none = .error (.styleNotText "link".toList)
      ∧ ¬numberAround.ThemeEscapes
      ∧ run numberAround ["--log-level".toList, "debug".toList, "render".toList, "x".toList]
          = .finished
            { exitCode := 2, stdout := [],
              log := [⟨"styledtext.theme".toList, "Loaded theme from t.json (1 roles)".toList⟩],
              stderr := themeComplaint ++ ControlSequence.remove
                ((Fault.styleNotText "link".toList).message ++ ['\n']) } := by
  have hcalls : Calls numberAround.look
      ["--log-level".toList, "debug".toList, "render".toList, "x".toList] debugRender .render
      ["x".toList] :=
    ⟨rfl, rfl, "render".toList, rfl, rfl⟩
  have hload : Theme.load numberAround none = .error (.styleNotText "link".toList) := rfl
  have hescapes : ¬numberAround.ThemeEscapes := (Theme.load_isReported_iff hload).mp (.inl rfl)
  have hrun := (theme_fault_reported_or_escapes hcalls).2.1 _ hload hescapes
  exact ⟨hcalls, hload, hescapes, hrun⟩

/-- **A variable that names no file** ends the run of a command with a crash. -/
theorem missing_theme_crashes :
    let around : Surroundings :=
      { look := Files.look [], themeVariable := some "none.json".toList, reader := plainReader }
    let own : Arguments :=
      { settings := [], operands := ["render".toList, "{emphasis}x{/emphasis}".toList] }
    Calls around.look own.operands own .render ["{emphasis}x{/emphasis}".toList]
      ∧ run around own.operands = .finished
          { exitCode := 1, stdout := [], log := [], stderr := [],
            crash := some (.fileMissing "none.json".toList) } := by
  intro around own
  have hload : Theme.load around none = .error (.fileMissing "none.json".toList) := rfl
  have hcalls : Calls around.look own.operands own .render ["{emphasis}x{/emphasis}".toList] :=
    ⟨rfl, rfl, "render".toList, rfl, rfl⟩
  exact ⟨hcalls, run_of_fault hcalls hload⟩

end CommandLine

end TermMarkup
