import Wireframe.Proofs.Strictness

/-!
# What a strict check reports

Strict reading stops at the first stage that finds an error. A strict check does not: it reads the
whole text and then fails with all errors. So it fails exactly where strict reading fails, and the
errors of strict reading come first, but those of the later stages follow.

## Main definitions

* `ParseError.Continues` — errors that start with those of one stage and go on with others.

## Main results

* `checkText_strict_of_error`, `checkText_strict_of_ok` — a strict check of a text, from what strict
  reading makes of it.
* `strict_check_stages` — how a strict check is related to strict reading.
-/

namespace Wireframe

/-- The errors of one stage come first, and others are from other stages. -/
structure ParseError.Continues (e first : ParseError) (stage : Phase) (later : List Diagnostic) :
    Prop where
  split : e.diagnostics = first.diagnostics ++ later
  nonempty : first.diagnostics ≠ []
  own : ∀ d ∈ first.diagnostics, d.phase = stage
  others : ∀ d ∈ later, d.phase ≠ stage

/-- Errors are those of one stage only if nothing follows. -/
theorem ParseError.Continues.eq_iff {e first : ParseError} {stage : Phase}
    {later : List Diagnostic} (h : e.Continues first stage later) :
    e = first ↔ ∃ stage, ∀ d ∈ e.diagnostics, d.phase = stage := by
  constructor
  · rintro rfl
    exact ⟨stage, h.own⟩
  · rintro ⟨only, all⟩
    rw [h.split] at all
    obtain ⟨d, rest, front⟩ := List.exists_cons_of_ne_nil h.nonempty
    have here : d ∈ first.diagnostics := front ▸ List.mem_cons_self
    have same : only = stage := (all d (List.mem_append_left _ here)).symm.trans (h.own d here)
    have none : later = [] := List.eq_nil_iff_forall_not_mem.mpr fun d found =>
      h.others d found ((all d (List.mem_append_right _ found)).trans same)
    have split := h.split
    rw [none, List.append_nil] at split
    cases e
    cases first
    exact congrArg ParseError.mk split

/-- Naming a file leaves stages as they are. -/
theorem ParseError.Continues.withFile {e first : ParseError} {stage : Phase}
    {later : List Diagnostic} (h : e.Continues first stage later) (path : String) :
    (e.withFile path).Continues (first.withFile path) stage
      (later.map fun d => { d with file := some path }) where
  split := by
    simp only [ParseError.withFile, h.split, List.map_append]
  nonempty := by
    simpa only [ParseError.withFile, ne_eq, List.map_eq_nil_iff] using h.nonempty
  own := by
    intro d found
    obtain ⟨d, here, rfl⟩ := List.mem_map.mp found
    exact h.own d here
  others := by
    intro d found
    obtain ⟨d, here, rfl⟩ := List.mem_map.mp found
    exact h.others d here

section Text

variable (args : Arguments) (config : Config) {text : String}

/-- Where strict reading fails, a strict check fails with the same errors and those of the later
stages. -/
theorem checkText_strict_of_error {stopped : ParseError} (failed : parse text = .error stopped) :
    ∃ e stage later, checkText { args with strict := true } config text = .error e ∧
      e.Continues (stopped.withFile args.input) stage later := by
  have faulty : (tolerant text).errors ≠ [] := by
    intro clean
    obtain ⟨project, -, accepted, -⟩ := parse_of_no_errors clean
    rw [accepted] at failed
    contradiction
  obtain ⟨stage, row, later, failed', split, nonempty, own, others⟩ := exists_first_row faulty
  obtain rfl := Except.error.inj (failed.symm.trans failed')
  have continues : (ParseError.mk (tolerant text).errors).Continues ⟨row⟩ stage later :=
    ⟨split, nonempty, own, others⟩
  refine ⟨_, stage, _, ?_, continues.withFile args.input⟩
  simp only [checkText, analyze_eq, true_and, if_pos faulty, ParseError.withFile]

/-- Where strict reading gives a project, a strict check does not fail. -/
theorem checkText_strict_of_ok {project : Project} (accepted : parse text = .ok project) :
    ∃ a, checkText { args with strict := true } config text = .ok a := by
  have clean : (tolerant text).errors = [] := by
    by_contra faulty
    obtain ⟨stage, row, later, failed, -⟩ := exists_first_row faulty
    rw [accepted] at failed
    contradiction
  simp only [checkText, analyze_eq, clean, ne_eq, not_true_eq_false, and_false, if_false]
  exact ⟨_, rfl⟩

end Text

section Files

variable {σ : Type} {files : FileAccess (StateM σ)} {systemPath : String} {args : Arguments}
  {settings : SettingsReader} {s : σ} {config : Config} {text : String}

/-- A check fails because of its text exactly if reading that fails. -/
theorem check_eq_parse_iff (reads : files.ReadsOnly)
    (loaded : (loadConfig files systemPath args.config settings s).1 = .ok config)
    (read : (files.read args.input s).1 = .ok text) (e : ParseError) :
    (check files systemPath args settings s).1 = .error (.parse e) ↔
      checkText args config text = .error e := by
  rw [check_apply reads]
  simp only [loaded, read]
  cases checked : checkText args config text with
  | error reason => simp
  | ok a =>
    dsimp only
    split <;> simp

/-- Given the settings and the text that it reads, a strict check fails because of the text exactly
if strict reading fails. The errors of strict reading, with the file named, are then the first ones,
but the check goes on to those of the later stages: the two agree only if there are none. -/
theorem strict_check_stages (reads : files.ReadsOnly)
    (loaded : (loadConfig files systemPath args.config settings s).1 = .ok config)
    (read : (files.read args.input s).1 = .ok text) :
    ((∃ e, (check files systemPath { args with strict := true } settings s).1 =
        .error (.parse e)) ↔
      ∃ stopped, parse text = .error stopped) ∧
    ∀ e stopped,
      (check files systemPath { args with strict := true } settings s).1 = .error (.parse e) →
      parse text = .error stopped →
      (∃ stage later, e.Continues (stopped.withFile args.input) stage later) ∧
      (e = stopped.withFile args.input ↔ ∃ stage, ∀ d ∈ e.diagnostics, d.phase = stage) := by
  have fails : ∀ e, (check files systemPath { args with strict := true } settings s).1 =
      .error (.parse e) ↔ checkText { args with strict := true } config text = .error e :=
    check_eq_parse_iff reads loaded read
  simp only [fails]
  refine ⟨⟨?_, ?_⟩, ?_⟩
  · rintro ⟨e, refused⟩
    cases outcome : parse text with
    | error stopped => exact ⟨stopped, rfl⟩
    | ok project =>
      obtain ⟨a, accepted⟩ := checkText_strict_of_ok args config outcome
      rw [accepted] at refused
      contradiction
  · rintro ⟨stopped, failed⟩
    obtain ⟨e, -, -, refused, -⟩ := checkText_strict_of_error args config failed
    exact ⟨e, refused⟩
  · intro e stopped refused failed
    obtain ⟨e', stage, later, refused', continues⟩ :=
      checkText_strict_of_error args config failed
    obtain rfl := Except.error.inj (refused.symm.trans refused')
    exact ⟨⟨stage, later, continues⟩, continues.eq_iff⟩

end Files

/-- The stages that the errors are from, if there are any. -/
def stagesOf {α : Type} : Except ParseError α → List Phase
  | .error e => e.diagnostics.map Diagnostic.phase
  | .ok _ => []

theorem exists_of_stagesOf {α : Type} {outcome : Except ParseError α} {stages : List Phase}
    (found : stagesOf outcome = stages) (nonempty : stages ≠ []) :
    ∃ e, outcome = .error e ∧ e.diagnostics.map Diagnostic.phase = stages := by
  cases outcome with
  | error e => exact ⟨e, rfl, found⟩
  | ok value => exact absurd found.symm nonempty

/-- A strict check of the file in a directory with empty settings. -/
theorem exists_check_sheetTree (text : String) (stages : List Phase)
    (found : stagesOf (checkText { strayArguments with strict := true } {} text) = stages)
    (nonempty : stages ≠ []) :
    ∃ e, (check FileAccess.tree "/etc/wireloom.toml" { strayArguments with strict := true }
        Config.ofText? (sheetTree text)).1 = .error (.parse e) ∧
      e.diagnostics.map Diagnostic.phase = stages := by
  obtain ⟨e, refused, same⟩ := exists_of_stagesOf found nonempty
  exact ⟨e, (check_eq_parse_iff FileAccess.tree_readsOnly (loadConfig_sheetTree text)
    (read_sheetTree text) e).mpr refused, same⟩

theorem strict_check_stages_strayText : ∃ e stopped,
    (check FileAccess.tree "/etc/wireloom.toml" { strayArguments with strict := true }
        Config.ofText? (sheetTree strayText)).1 = .error (.parse e) ∧
      parse strayText = .error stopped ∧ e = stopped.withFile "in" := by
  obtain ⟨e, failed, stages⟩ :=
    exists_check_sheetTree strayText [.lexer] (by decide +kernel) (by decide)
  have settings : (loadConfig FileAccess.tree "/etc/wireloom.toml" strayArguments.config
      Config.ofText? (sheetTree strayText)).1 = .ok {} := loadConfig_sheetTree strayText
  obtain ⟨fails, agree⟩ := strict_check_stages FileAccess.tree_readsOnly settings
    (read_sheetTree strayText)
  obtain ⟨stopped, outcome⟩ := fails.mp ⟨e, failed⟩
  refine ⟨e, stopped, failed, outcome, (agree e stopped failed outcome).2.mpr ⟨.lexer, ?_⟩⟩
  intro d inside
  exact List.mem_singleton.mp (stages ▸ List.mem_map_of_mem inside)

/-- A project with a character that is no token and without a screen. -/
def barrenText : String :=
  "project \"P\" \x7b § \x7d"

/-- A strict check need not stop at the stage at which strict reading stops. -/
theorem strict_check_goes_on_barrenText : ∃ e stopped,
    (check FileAccess.tree "/etc/wireloom.toml" { strayArguments with strict := true }
        Config.ofText? (sheetTree barrenText)).1 = .error (.parse e) ∧
      e.diagnostics.map Diagnostic.phase = [.lexer, .parser] ∧
      parse barrenText = .error stopped ∧ stopped.diagnostics.map Diagnostic.phase = [.lexer] ∧
      e ≠ stopped.withFile "in" := by
  obtain ⟨e, failed, stages⟩ :=
    exists_check_sheetTree barrenText [.lexer, .parser] (by decide +kernel) (by decide)
  have strictly : stagesOf (parse barrenText) = [.lexer] := by decide +kernel
  obtain ⟨stopped, outcome, first⟩ := exists_of_stagesOf strictly (by decide)
  refine ⟨e, stopped, failed, stages, outcome, first, ?_⟩
  rintro rfl
  -- The one has two errors and the other has one.
  have count := congrArg List.length stages
  have one := congrArg List.length first
  simp only [ParseError.withFile, List.length_map] at count one
  rw [one] at count
  contradiction

end Wireframe
