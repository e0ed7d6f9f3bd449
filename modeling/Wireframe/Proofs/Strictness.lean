import Mathlib
import Wireframe.Check
import Wireframe.Proofs.Analysis
import Wireframe.Proofs.Files

/-!
# Strict checks

A strict check takes the same steps as a tolerant one. Only a project with errors ends it early, and
at that point nothing has been written. So it either does all that the tolerant check does, or fails
with the errors that the tolerant check reports and leaves the files alone. Either way the source
map is all that a check ever writes. All of this holds however settings are read.

## Main definitions

* `Notice.Shows` — what a notice says about a diagnostic.
* `Arguments.StrictlyFollows` — what a strict check comes to, from what the tolerant one reports.

## Main results

* `check_apply` — a check, when only writing changes files.
* `check_writes`, `changesOnly_check` — a check writes where the source map is wanted, if at all.
* `checkText_strict` — what a strict check of a text comes to.
* `strict_check` — strict and tolerant checks agree, and only the source map is written.
-/

namespace Wireframe

/-! ### Files under a check -/

section ReadsOnly

variable {σ : Type} {files : FileAccess (StateM σ)} (reads : files.ReadsOnly)

include reads

theorem leavesState_readConfig (path : String) (settings : SettingsReader) :
    LeavesState (readConfig files path settings) := by
  refine (reads.occupied path).bind fun there => ?_
  split
  · refine (reads.read path).bind fun text => ?_
    split
    · exact .pure _
    · split <;> exact .pure _
  · exact .pure _

theorem leavesState_loadConfig (systemPath : String) (asked : Option String)
    (settings : SettingsReader) : LeavesState (loadConfig files systemPath asked settings) := by
  unfold loadConfig
  split
  · exact leavesState_readConfig reads _ settings
  · refine (reads.occupied _).bind fun inProject => ?_
    split
    · exact leavesState_readConfig reads _ settings
    · refine (reads.occupied _).bind fun inSystem => ?_
      split
      · exact leavesState_readConfig reads _ settings
      · exact .pure _

/-- A check, when only writing changes files: settings and text are those of the files before the
check, and the files stay as they are up to the point where the source map is written. -/
theorem check_apply (systemPath : String) (args : Arguments) (settings : SettingsReader) (s : σ) :
    check files systemPath args settings s =
      match (loadConfig files systemPath args.config settings s).1 with
      | .error reason => (.error (.config reason), s)
      | .ok config =>
        match (files.read args.input s).1 with
        | .error reason => (.error (.file reason), s)
        | .ok text =>
          match checkText args config text with
          | .error reason => (.error (.parse reason), s)
          | .ok a =>
            match writeMap files a args.sourceMap s with
            | (.error reason, written) => (.error (.file reason), written)
            | (.ok (), written) =>
              (.ok (a.report (args.format.getD config.format)
                (args.denyWarnings || config.denyWarnings)), written) := by
  rw [check, (leavesState_loadConfig reads systemPath args.config settings).bind_apply]
  cases (loadConfig files systemPath args.config settings s).1 with
  | error reason => rfl
  | ok config =>
    change (files.read args.input >>= _) s = _
    rw [(reads.read args.input).bind_apply]
    cases (files.read args.input s).1 with
    | error reason => rfl
    | ok text =>
      dsimp only
      cases checkText args config text with
      | error reason => rfl
      | ok a =>
        dsimp only
        rw [stateM_bind_apply]
        rcases writeMap files a args.sourceMap s with ⟨_ | ⟨⟩, written⟩ <;> rfl

/-- A check leaves the files as they are or writes where the source map is wanted. -/
theorem check_writes (systemPath : String) (args : Arguments) (settings : SettingsReader) (s : σ) :
    (check files systemPath args settings s).2 = s ∨
      ∃ path content, args.sourceMap = some path ∧
        (check files systemPath args settings s).2 = (files.write path content s).2 := by
  rw [check_apply reads]
  split
  case h_1 => exact .inl rfl
  case h_2 =>
    split
    case h_1 => exact .inl rfl
    case h_2 =>
      split
      case h_1 => exact .inl rfl
      case h_2 a _ =>
        cases wanted : args.sourceMap with
        | none => exact .inl rfl
        | some path =>
          refine .inr ⟨path, a.mapText, rfl, ?_⟩
          change (match files.write path a.mapText s with
            | (.error reason, written) => _
            | (.ok (), written) => _ : _ × σ).2 = _
          rcases files.write path a.mapText s with ⟨_ | ⟨⟩, written⟩ <;> rfl

end ReadsOnly

/-- A check changes at most the file that its source map is written to. -/
theorem changesOnly_check (systemPath : String) (args : Arguments) (settings : SettingsReader)
    (tree : FileTree) :
    tree.ChangesOnly args.sourceMap (check FileAccess.tree systemPath args settings tree).2 := by
  rcases check_writes FileAccess.tree_readsOnly systemPath args settings tree with
    same | ⟨path, content, wanted, written⟩
  · rw [same]
    exact .refl tree _
  · rw [written, wanted]
    exact FileTree.changesOnly_write tree path content

/-! ### Strict and tolerant checks -/

/-- A notice says about a diagnostic what is wrong, by which code and how badly, what to do about it
and where it is. -/
structure Notice.Shows (n : Notice) (d : Diagnostic) : Prop where
  message : n.message = d.message
  code : n.code = some d.code.name
  severity : n.severity = some d.severity
  suggestion : n.help = d.suggestion
  span : n.label.map Label.span = some d.span

/-- The notices of a project that was refused show its errors, one by one. -/
theorem shows_notices (e : ParseError) :
    List.Forall₂ Notice.Shows (CheckError.parse e).notices e.diagnostics := by
  rw [CheckError.notices, List.forall₂_map_left_iff, List.forall₂_same]
  exact fun d _ => ⟨rfl, rfl, rfl, rfl, rfl⟩

/-- What a strict check of a text comes to, from what the tolerant one makes of it. -/
theorem checkText_strict {args : Arguments} {config : Config} {text : String} {a : Analysis}
    (tolerantly : checkText { args with strict := false } config text = .ok a) :
    checkText { args with strict := true } config text =
      if a.errors = [] then .ok a else .error ⟨a.errors⟩ := by
  simp only [checkText, analyze_eq, Bool.false_eq_true, false_and, if_false] at tolerantly
  -- The errors that are looked at are those that are reported, whether warnings are kept or not.
  have errors : a.errors =
      (tolerant text).errors.map fun d => { d with file := some args.input } := by
    rw [← Except.ok.inj tolerantly, Analysis.errors, errorsOf_map_file]
    split
    · rfl
    · exact congrArg _ (errorsOf_errorsOf _)
  simp only [checkText, analyze_eq, true_and, errors, List.map_eq_nil_iff, tolerantly]
  by_cases clean : (tolerant text).errors = []
  · rw [if_neg (not_not_intro clean), if_pos clean]
  · rw [if_pos clean, if_neg clean]

/-- What a strict check comes to, from what the tolerant one reports about the same files. -/
structure Arguments.StrictlyFollows {σ : Type} (args : Arguments) (files : FileAccess (StateM σ))
    (systemPath : String) (settings : SettingsReader) (s : σ) (r : Report) (a : Analysis) :
    Prop where
  errors : r.errors = a.errors.length
  /-- Without an error strict and tolerant checks are the same. -/
  clean : r.errors = 0 →
    check files systemPath { args with strict := true } settings s =
      check files systemPath { args with strict := false } settings s
  /-- With errors the strict check fails with them and writes nothing. -/
  faulty : 0 < r.errors → ∃ e : ParseError,
    check files systemPath { args with strict := true } settings s = (.error (.parse e), s) ∧
      e.diagnostics = a.diagnostics.filter (·.isError) ∧ e.diagnostics.length = r.errors ∧
      List.Forall₂ Notice.Shows (CheckError.parse e).notices e.diagnostics

section Modes

variable {σ : Type} {files : FileAccess (StateM σ)} (reads : files.ReadsOnly) {args : Arguments}
  {systemPath : String} {settings : SettingsReader} {s : σ} {r : Report}

include reads

/-- A check with a report has read settings and a text and made something out of that. -/
theorem exists_analysis_of_report (ran : (check files systemPath args settings s).1 = .ok r) :
    ∃ config text a, (loadConfig files systemPath args.config settings s).1 = .ok config ∧
      (files.read args.input s).1 = .ok text ∧ checkText args config text = .ok a ∧
      r.errors = a.errors.length := by
  rw [check_apply reads] at ran
  split at ran
  case h_1 => contradiction
  case h_2 config loaded =>
    split at ran
    case h_1 => contradiction
    case h_2 text read =>
      split at ran
      case h_1 => contradiction
      case h_2 a analyzed =>
        refine ⟨config, text, a, loaded, read, analyzed, ?_⟩
        split at ran
        · contradiction
        · rw [← Except.ok.inj ran]
          rfl

/-- What a strict check comes to follows from the report of the tolerant one. -/
theorem strictlyFollows_of_report
    (ran : (check files systemPath { args with strict := false } settings s).1 = .ok r) :
    ∃ config text a, (loadConfig files systemPath args.config settings s).1 = .ok config ∧
      (files.read args.input s).1 = .ok text ∧
      checkText { args with strict := false } config text = .ok a ∧
      args.StrictlyFollows files systemPath settings s r a := by
  obtain ⟨config, text, a, loaded, read, analyzed, errors⟩ := exists_analysis_of_report reads ran
  have strictly := checkText_strict analyzed
  refine ⟨config, text, a, loaded, read, analyzed, errors, fun none => ?_, fun some => ?_⟩
  · -- Both checks go on from the same analysis, and what they do then does not depend on the mode.
    rw [if_pos (List.length_eq_zero_iff.mp (errors.symm.trans none))] at strictly
    simp only [check_apply reads, loaded, read, analyzed, strictly]
  · -- The strict check ends before the source map is written.
    rw [if_neg fun clean => Nat.ne_of_gt some (errors.trans (congrArg _ clean))] at strictly
    refine ⟨⟨a.errors⟩, ?_, rfl, errors.symm, shows_notices _⟩
    simp only [check_apply reads, loaded, read, strictly]

end Modes

/-- Strict and tolerant checks agree, and only the source map is written. Where the tolerant check
has a report without errors, the strict check gives the same report and leaves the same files. Where
the report has errors, the strict check fails with exactly them, shows them one by one, and leaves
the files alone. The files can be any that reading does not change, also such that keep a record of
every write, and settings can be read in any way. -/
theorem strict_check {σ : Type} {files : FileAccess (StateM σ)} (reads : files.ReadsOnly)
    (systemPath : String) (args : Arguments) (settings : SettingsReader) (s : σ) :
    (∀ r, (check files systemPath { args with strict := false } settings s).1 = .ok r →
      ∃ config text a, (loadConfig files systemPath args.config settings s).1 = .ok config ∧
        (files.read args.input s).1 = .ok text ∧
        checkText { args with strict := false } config text = .ok a ∧
        args.StrictlyFollows files systemPath settings s r a) ∧
    ∀ strict, (check files systemPath { args with strict } settings s).2 = s ∨
      ∃ path content, args.sourceMap = some path ∧
        (check files systemPath { args with strict } settings s).2 =
          (files.write path content s).2 :=
  ⟨fun _ ran => strictlyFollows_of_report reads ran, fun _ => check_writes reads _ _ _ _⟩

/-- A directory with a text and with empty settings. -/
def sheetTree (text : String) : FileTree where
  nodes := [(["in"], .file text.toUTF8), (["rc"], .file "".toUTF8)]
  workingDirectory := []

theorem resolve_sheetTree (text : String) {name : String}
    (short : name = "in" ∨ name = "rc" ∨ name = "out") :
    (sheetTree text).resolve name = .ok [name] := by
  have alone : name.splitOn "/" = [name] := by obtain rfl | rfl | rfl := short <;> cbv
  have plain : name.contains '\x00' = false := by obtain rfl | rfl | rfl := short <;> cbv
  have relative : name.startsWith "/" = false := by
    obtain rfl | rfl | rfl := short <;> decide +kernel
  rw [FileTree.resolve, alone, FileTree.resolveNames, plain, relative]
  obtain rfl | rfl | rfl := short <;> rfl

theorem read_sheetTree (text : String) :
    (FileAccess.tree.read "in" (sheetTree text)).1 = .ok text :=
  FileTree.read_of_node? (resolve_sheetTree text (.inl rfl)) rfl

theorem loadConfig_sheetTree (text : String) :
    (loadConfig FileAccess.tree "/etc/wireloom.toml" (some "rc") Config.ofText?
      (sheetTree text)).1 = .ok {} := by
  have settings : (sheetTree text).resolve "rc" = .ok ["rc"] :=
    resolve_sheetTree text (.inr (.inl rfl))
  have there : (sheetTree text).occupied "rc" = true := by
    rw [FileTree.occupied, settings]
    rfl
  have empty : (sheetTree text).read "rc" = .ok "" := FileTree.read_of_node? settings rfl
  have defaults : Config.ofText? "" = some {} := by decide +kernel
  simp only [loadConfig, readConfig, stateM_bind_apply, FileAccess.tree_occupied,
    FileAccess.tree_read, there, empty, defaults, if_true]
  rfl

/-- A project with a character that is no token. -/
def strayText : String :=
  "project \"Shop\" \x7b screen Main \x7b layout stack \x7b \x7d \x7d § \x7d"

/-- A directory with that project and with empty settings. -/
def strayTree : FileTree :=
  sheetTree strayText

/-- The check of the project, with a source map. -/
def strayArguments : Arguments where
  input := "in"
  config := some "rc"
  sourceMap := some "out"

theorem check_strayTree : ∃ r : Report, r.errors = 1 ∧
    (check FileAccess.tree "/etc/wireloom.toml" strayArguments Config.ofText? strayTree).1 =
      .ok r := by
  have loaded : (loadConfig FileAccess.tree "/etc/wireloom.toml" strayArguments.config
      Config.ofText? strayTree).1 = .ok {} := loadConfig_sheetTree strayText
  have read : (FileAccess.tree.read strayArguments.input strayTree).1 = .ok strayText :=
    read_sheetTree strayText
  have counted : (checkText strayArguments {} strayText).toOption.map (·.errors.length) =
      some 1 := by decide +kernel
  cases analyzed : checkText strayArguments {} strayText with
  | error reason => simp [analyzed, Except.toOption] at counted
  | ok a =>
    have place : strayTree.resolve "out" = .ok ["out"] :=
      resolve_sheetTree strayText (.inr (.inr rfl))
    have written : writeMap FileAccess.tree a strayArguments.sourceMap strayTree =
        (.ok (), strayTree.put ["out"] (.file a.mapText.toUTF8)) := by
      change FileAccess.tree.write "out" a.mapText strayTree = _
      rw [FileAccess.tree_write, FileTree.write_eq_ok_iff.mpr
        ⟨by decide +kernel, _, place, by nofun, rfl⟩]
    rw [analyzed] at counted
    refine ⟨a.report .human false, Option.some.inj counted, ?_⟩
    simp only [check_apply FileAccess.tree_readsOnly, loaded, read, analyzed, written]
    rfl

theorem strict_check_strayTree : ∃ r e,
    (check FileAccess.tree "/etc/wireloom.toml" { strayArguments with strict := false }
        Config.ofText? strayTree).1 = .ok r ∧ r.errors = 1 ∧
      check FileAccess.tree "/etc/wireloom.toml" { strayArguments with strict := true }
        Config.ofText? strayTree = (.error (.parse e), strayTree) ∧ e.diagnostics.length = 1 := by
  obtain ⟨r, one, ran⟩ := check_strayTree
  obtain ⟨-, -, a, -, -, -, follows⟩ := (strict_check FileAccess.tree_readsOnly
    "/etc/wireloom.toml" strayArguments Config.ofText? strayTree).1 r ran
  obtain ⟨e, failed, -, count, -⟩ := follows.faulty (one ▸ Nat.one_pos)
  exact ⟨r, e, ran, one, failed, count.trans one⟩

end Wireframe
