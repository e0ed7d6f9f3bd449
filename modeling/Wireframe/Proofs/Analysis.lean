import Mathlib.Data.List.Basic
import Wireframe.Analysis

/-!
# Strict and tolerant reading agree

Both ways of reading a text run the same three stages. Strict reading stops at the first stage that
finds an error; tolerant reading goes on. What relates them is that every diagnostic carries the
stage that found it: the diagnostics of a text are cut into one row for each stage, and strict
reading returns the first row that holds an error.

## Main definitions

* `tolerant` — what reading a text tolerantly gives when nothing is left out and no file is named.
* `Analysis.withFile`, `ParseError.withFile` — an answer whose diagnostics name a file.

## Main results

* `scan_stage`, `SyntaxFault.diagnostic_stage`, `validate_stage` — what each stage reports.
* `analyze_eq` — tolerant reading under any options, from `tolerant` alone.
* `parse_agrees_with_analyze` — strict reading answers as tolerant reading foretells.
-/

namespace Wireframe

/-! ### What each stage reports -/

/-- A diagnostic as the stages make it: of one stage, and not yet said to lie in any file. -/
def Diagnostic.MadeBy (stage : Phase) (d : Diagnostic) : Prop :=
  d.phase = stage ∧ d.file = none

theorem scan_stage (text : List Char) :
    ∀ d ∈ (scan text).diagnostics, d.MadeBy .lexer ∧ d.isError := by
  intro d found
  obtain ⟨placed, -, reported⟩ := List.mem_filterMap.mp found
  simp only [Piece.diagnostic?] at reported
  split at reported <;> simp at reported <;> obtain rfl := reported <;> exact ⟨⟨rfl, rfl⟩, rfl⟩

theorem SyntaxFault.diagnostic_stage (fault : SyntaxFault) :
    fault.diagnostic.MadeBy .parser ∧ fault.diagnostic.isError := by
  cases fault <;> exact ⟨⟨rfl, rfl⟩, rfl⟩

theorem ProjectBlock.diagnostics_stage (block : ProjectBlock) :
    ∀ d ∈ block.diagnostics, d.MadeBy .parser ∧ d.isError := by
  intro d found
  unfold ProjectBlock.diagnostics at found
  split at found
  · obtain rfl := List.mem_singleton.mp found
    exact ⟨⟨rfl, rfl⟩, rfl⟩
  · contradiction

theorem Problem.code_phase (problem : Problem) : problem.code.phase = .semantic := by
  cases problem with
  | unknownProperty owner => cases owner <;> rfl
  | invalidChoice owner => cases owner <;> rfl
  | invalidBoolean owner property value reported =>
    cases owner with
    | cell => contradiction  -- a cell has no code for it
    | _ => rfl
  | _ => rfl

theorem validate_stage (project : Project) (map : SourceMap) :
    ∀ d ∈ validate project map, d.MadeBy .semantic := by
  intro d found
  obtain ⟨finding, -, rfl⟩ := List.mem_map.mp found
  exact ⟨finding.problem.code_phase, rfl⟩

/-- Diagnostics that are all errors are their own errors. -/
theorem errorsOf_eq_self {diagnostics : List Diagnostic} (errors : ∀ d ∈ diagnostics, d.isError) :
    errorsOf diagnostics = diagnostics :=
  List.filter_eq_self.mpr errors

theorem errorsOf_append (first second : List Diagnostic) :
    errorsOf (first ++ second) = errorsOf first ++ errorsOf second :=
  List.filter_append first second

/-- The first row of diagnostics is what the stage of the very first one reported, if no later row
comes from that stage. -/
theorem first_row_eq_filter {stage : Phase} {row : List Diagnostic} (later : List Diagnostic)
    (nonempty : row ≠ []) (own : ∀ d ∈ row, d.phase = stage)
    (others : ∀ d ∈ later, d.phase ≠ stage) :
    ∃ first rest, row ++ later = first :: rest ∧
      row = (row ++ later).filter (·.phase = first.phase) := by
  obtain ⟨first, rest, rfl⟩ := List.exists_cons_of_ne_nil nonempty
  refine ⟨first, rest ++ later, rfl, ?_⟩
  have kept : (first :: rest).filter (·.phase = stage) = first :: rest :=
    List.filter_eq_self.mpr (by simpa using own)
  have dropped : later.filter (·.phase = stage) = [] :=
    List.filter_eq_nil_iff.mpr (by simpa using others)
  rw [own first List.mem_cons_self, List.filter_append, kept, dropped, List.append_nil]

/-! ### The screens of a project -/

/-- The screen that an item is. -/
def Item.screen? : Item → Option ScreenBlock
  | .screen block => some block
  | _ => none

theorem ProjectBlock.screens_eq_filterMap (block : ProjectBlock) :
    block.screens = block.items.filterMap Item.screen? := by
  refine List.filterMap_congr fun item _ => ?_
  cases item <;> rfl

theorem ProjectBlock.length_screens_lowerItems (block : ProjectBlock) (parent : NodeId)
    (seen : List SettingsKind) (items : List Item) (used : List IdFamily) :
    (block.lowerItems parent seen items used).1.screens.length =
      (items.filterMap Item.screen?).length := by
  induction items generalizing seen used with
  | nil => rfl
  | cons item others ih =>
    -- Settings and definitions take numbers, but only screens are counted.
    cases item with
    | settings settings =>
      rw [List.filterMap_cons_none rfl]
      simp only [ProjectBlock.lowerItems, Numbered.bind_apply]
      split <;> exact ih _ _
    | definition definition =>
      rw [List.filterMap_cons_none rfl]
      exact ih _ _
    | screen screen => exact congrArg Nat.succ (ih _ _)

/-- A project has as many screens as its text. -/
theorem ProjectBlock.length_screens_build (block : ProjectBlock) (text : List Char) :
    (block.build text).1.screens.length = block.screens.length := by
  rw [ProjectBlock.screens_eq_filterMap]
  exact block.length_screens_lowerItems _ _ _ _

theorem ProjectBlock.diagnostics_eq_nil_iff (block : ProjectBlock) :
    block.diagnostics = [] ↔ block.screens ≠ [] := by
  unfold ProjectBlock.diagnostics
  split <;> simp_all

/-! ### Tolerant reading -/

/-- The answer with every diagnostic said to lie in a file. -/
def ParseError.withFile (e : ParseError) (path : String) : ParseError :=
  ⟨e.diagnostics.map fun d => { d with file := some path }⟩

/-- The answer for a named file: only diagnostics and the answer itself say so. -/
def Analysis.withFile (a : Analysis) (path : String) : Analysis :=
  { a with
    diagnostics := a.diagnostics.map fun d => { d with file := some path }
    path := some path }

/-- All that can be made out of a text, with every diagnostic and for no file. -/
def tolerant (text : String) : Analysis where
  built := (inspect text true).1
  diagnostics := (inspect text true).2
  path := none

theorem tolerant_of_fault {text : String} {fault : SyntaxFault}
    (refused : ProjectBlock.ofLexemes (scan text.toList).lexemes = .error fault) :
    tolerant text = ⟨none, (scan text.toList).diagnostics ++ [fault.diagnostic], none⟩ := by
  simp only [tolerant, inspect, refused]

theorem tolerant_of_block {text : String} {block : ProjectBlock}
    (accepted : ProjectBlock.ofLexemes (scan text.toList).lexemes = .ok block) :
    tolerant text =
      ⟨some (block.build text.toList),
        (scan text.toList).diagnostics ++
          (block.diagnostics ++
            validate (block.build text.toList).1 (block.build text.toList).2), none⟩ := by
  simp [tolerant, inspect, accepted]

theorem errors_of_fault {text : String} {fault : SyntaxFault}
    (refused : ProjectBlock.ofLexemes (scan text.toList).lexemes = .error fault) :
    (tolerant text).errors = (scan text.toList).diagnostics ++ [fault.diagnostic] := by
  rw [tolerant_of_fault refused, Analysis.errors]
  refine errorsOf_eq_self fun d found => ?_
  rcases List.mem_append.mp found with lexical | syntactic
  · exact (scan_stage _ d lexical).2
  · obtain rfl := List.mem_singleton.mp syntactic
    exact fault.diagnostic_stage.2

theorem errors_of_block {text : String} {block : ProjectBlock}
    (accepted : ProjectBlock.ofLexemes (scan text.toList).lexemes = .ok block) :
    (tolerant text).errors =
      (scan text.toList).diagnostics ++
        (block.diagnostics ++
          errorsOf (validate (block.build text.toList).1 (block.build text.toList).2)) := by
  rw [tolerant_of_block accepted, Analysis.errors, errorsOf_append, errorsOf_append,
    errorsOf_eq_self fun d found => (scan_stage _ d found).2,
    errorsOf_eq_self fun d found => (block.diagnostics_stage d found).2]

/-- No stage names a file. -/
theorem file_tolerant (text : String) : ∀ d ∈ (tolerant text).diagnostics, d.file = none := by
  intro d found
  cases read : ProjectBlock.ofLexemes (scan text.toList).lexemes with
  | error fault =>
    rw [tolerant_of_fault read] at found
    rcases List.mem_append.mp found with lexical | syntactic
    · exact (scan_stage _ d lexical).1.2
    · obtain rfl := List.mem_singleton.mp syntactic
      exact fault.diagnostic_stage.1.2
  | ok block =>
    rw [tolerant_of_block read] at found
    rcases List.mem_append.mp found with lexical | later
    · exact (scan_stage _ d lexical).1.2
    · rcases List.mem_append.mp later with syntactic | semantic
      · exact (block.diagnostics_stage d syntactic).1.2
      · exact (validate_stage _ _ d semantic).2

/-- Leaving out the semantic warnings leaves the project and the errors. -/
theorem inspect_eq (text : String) (warnings : Bool) :
    inspect text warnings =
      ((tolerant text).built,
        if warnings then (tolerant text).diagnostics else (tolerant text).errors) := by
  cases warnings with
  | true => rfl
  | false =>
    cases read : ProjectBlock.ofLexemes (scan text.toList).lexemes with
    | error fault =>
      rw [errors_of_fault read, tolerant_of_fault read]
      simp [inspect, read]
    | ok block =>
      rw [errors_of_block read, tolerant_of_block read]
      simp [inspect, read, errorsOf]

theorem errorsOf_errorsOf (diagnostics : List Diagnostic) :
    errorsOf (errorsOf diagnostics) = errorsOf diagnostics :=
  errorsOf_eq_self fun _ found => (List.mem_filter.mp found).2

/-- Naming a file makes no diagnostic an error and no error a warning. -/
theorem errorsOf_map_file (diagnostics : List Diagnostic) (path : Option String) :
    errorsOf (diagnostics.map fun d => { d with file := path }) =
      (errorsOf diagnostics).map fun d => { d with file := path } := by
  unfold errorsOf
  rw [List.filter_map]
  rfl

/-- Tolerant reading under any options and for any file, from what it gives without either. -/
theorem analyze_eq (text : String) (path : Option String) (options : AnalysisOptions) :
    analyze text path options =
      if options.failOnError = true ∧ (tolerant text).errors ≠ [] then
        .error ⟨(tolerant text).errors.map fun d => { d with file := path }⟩
      else
        .ok
          { built := (tolerant text).built
            diagnostics :=
              (if options.semanticWarnings then (tolerant text).diagnostics
                else (tolerant text).errors).map fun d => { d with file := path }
            path } := by
  -- The errors are picked out after the warnings were left out, which makes no difference.
  have errors : errorsOf (if options.semanticWarnings then (tolerant text).diagnostics
      else (tolerant text).errors) = (tolerant text).errors := by
    split
    · rfl
    · exact errorsOf_errorsOf _
  simp only [analyze, inspect_eq, errorsOf_map_file, errors]
  cases options.failOnError <;> cases (tolerant text).errors <;> simp

/-- Without a file, diagnostics stay as the stages made them. -/
theorem map_file_none {diagnostics : List Diagnostic}
    (unplaced : ∀ d ∈ diagnostics, d.file = none) :
    (diagnostics.map fun d => { d with file := none }) = diagnostics := by
  have same : ∀ d ∈ diagnostics, { d with file := none } = id d := by
    rintro ⟨⟩ found
    cases unplaced _ found
    rfl
  rw [List.map_congr_left same, List.map_id]

/-- Tolerant reading for no file. -/
theorem analyze_none (text : String) (options : AnalysisOptions) :
    analyze text none options =
      if options.failOnError = true ∧ (tolerant text).errors ≠ [] then
        .error ⟨(tolerant text).errors⟩
      else
        .ok
          { tolerant text with
            diagnostics :=
              if options.semanticWarnings then (tolerant text).diagnostics
              else (tolerant text).errors } := by
  have all := file_tolerant text
  have errors : ∀ d ∈ (tolerant text).errors, d.file = none :=
    fun d found => all d (List.mem_filter.mp found).1
  rw [analyze_eq, map_file_none errors]
  cases options.semanticWarnings with
  | true => simp only [if_true, map_file_none all]; rfl
  | false => simp only [Bool.false_eq_true, if_false, map_file_none errors]; rfl

/-- Naming a file changes what the diagnostics and the answer say about it, and nothing else. -/
theorem analyze_some (text path : String) (options : AnalysisOptions) :
    analyze text (some path) options =
      match analyze text none options with
      | .error e => .error (e.withFile path)
      | .ok a => .ok (a.withFile path) := by
  have twice (diagnostics : List Diagnostic) :
      ((diagnostics.map fun d => { d with file := none }).map
        fun d => { d with file := some path }) =
        diagnostics.map fun d => { d with file := some path } := by
    rw [List.map_map]
    rfl
  rw [analyze_eq, analyze_eq]
  split <;> simp only [ParseError.withFile, Analysis.withFile, twice]

/-! ### Strict reading -/

theorem refuseErrors_eq (diagnostics : List Diagnostic) :
    refuseErrors diagnostics =
      if errorsOf diagnostics = [] then .ok () else .error ⟨errorsOf diagnostics⟩ := by
  unfold refuseErrors
  cases errorsOf diagnostics <;> simp

theorem parse_of_lexical {text : String} (faulty : (scan text.toList).diagnostics ≠ []) :
    parse text = .error ⟨(scan text.toList).diagnostics⟩ := by
  have refused : lexemes? text.toList = .error ⟨(scan text.toList).diagnostics⟩ := by
    simp [lexemes?, faulty]
  simp only [parse, refused]
  rfl

theorem lexemes?_of_clean {text : List Char} (clean : (scan text).diagnostics = []) :
    lexemes? text = .ok (scan text).lexemes := by
  simp [lexemes?, clean]

/-- The tokens of a text are given exactly if nothing is wrong with it. -/
theorem lexemes?_eq_ok_iff {text : List Char} {ls : List Lexeme} :
    lexemes? text = .ok ls ↔ (scan text).diagnostics = [] ∧ (scan text).lexemes = ls := by
  by_cases clean : (scan text).diagnostics = []
  · simp [lexemes?_of_clean clean, clean]
  · simp [lexemes?, clean]

theorem parse_of_fault {text : String} {fault : SyntaxFault}
    (clean : (scan text.toList).diagnostics = [])
    (refused : ProjectBlock.ofLexemes (scan text.toList).lexemes = .error fault) :
    parse text = .error ⟨[fault.diagnostic]⟩ := by
  simp only [parse, lexemes?_of_clean clean]
  change ((ProjectBlock.ofLexemes (scan text.toList).lexemes).mapError _ >>= _) = _
  rw [refused]
  rfl

theorem parse_of_block {text : String} {block : ProjectBlock}
    (clean : (scan text.toList).diagnostics = [])
    (accepted : ProjectBlock.ofLexemes (scan text.toList).lexemes = .ok block) :
    parse text =
      if block.diagnostics ≠ [] then .error ⟨block.diagnostics⟩
      else
        let (project, map) := block.build text.toList
        if errorsOf (validate project map) ≠ [] then .error ⟨errorsOf (validate project map)⟩
        else .ok project.clearIds := by
  -- What is left to run after each stage is brought to the front, so that its outcome decides.
  simp only [parse, lexemes?_of_clean clean]
  change ((ProjectBlock.ofLexemes (scan text.toList).lexemes).mapError _ >>= _) = _
  rw [accepted]
  change (refuseErrors block.diagnostics >>= _) = _
  rw [refuseErrors_eq, errorsOf_eq_self fun d found => (block.diagnostics_stage d found).2]
  by_cases complete : block.diagnostics = []
  · rw [if_pos complete, if_neg (not_not_intro complete)]
    change (refuseErrors (validate _ _) >>= _) = _
    rw [refuseErrors_eq]
    by_cases sound : errorsOf (validate (block.build text.toList).1
        (block.build text.toList).2) = []
    · rw [if_pos sound]
      simp only [sound, ne_eq, not_true_eq_false, if_false]
      rfl
    · rw [if_neg sound]
      simp only [sound, ne_eq, not_false_eq_true, if_true]
      rfl
  · rw [if_neg complete, if_pos complete]
    rfl

/-- Where tolerant reading finds no error, strict reading gives the same project without ids. -/
theorem parse_of_no_errors {text : String} (clean : (tolerant text).errors = []) :
    ∃ project, (tolerant text).project? = some project ∧
      parse text = .ok project.clearIds ∧ project.clearIds.screens ≠ [] := by
  cases read : ProjectBlock.ofLexemes (scan text.toList).lexemes with
  | error fault =>
    rw [errors_of_fault read] at clean
    simp at clean
  | ok block =>
    rw [errors_of_block read] at clean
    obtain ⟨lexical, later⟩ := List.append_eq_nil_iff.mp clean
    obtain ⟨complete, semantic⟩ := List.append_eq_nil_iff.mp later
    refine ⟨(block.build text.toList).1, ?_, ?_, ?_⟩
    · rw [tolerant_of_block read]
      rfl
    · rw [parse_of_block lexical read]
      simp [complete, semantic]
    · have screens := block.diagnostics_eq_nil_iff.mp complete
      rw [← List.length_pos_iff] at screens ⊢
      simpa [Project.clearIds, block.length_screens_build] using screens

/-- Where tolerant reading finds errors, strict reading fails with the first of them: those of one
stage. The others are from other stages. -/
theorem exists_first_row {text : String} (faulty : (tolerant text).errors ≠ []) :
    ∃ stage row later, parse text = .error ⟨row⟩ ∧ (tolerant text).errors = row ++ later ∧
      row ≠ [] ∧ (∀ d ∈ row, d.phase = stage) ∧ ∀ d ∈ later, d.phase ≠ stage := by
  have lexer : ∀ d ∈ (scan text.toList).diagnostics, d.phase = .lexer :=
    fun d found => (scan_stage _ d found).1.1
  cases read : ProjectBlock.ofLexemes (scan text.toList).lexemes with
  | error fault =>
    have parser : ∀ d ∈ [fault.diagnostic], d.phase = .parser := by
      simp [fault.diagnostic_stage.1.1]
    rw [errors_of_fault read]
    by_cases clean : (scan text.toList).diagnostics = []
    · -- The fault is the only error.
      rw [clean, List.nil_append]
      exact ⟨.parser, _, [], parse_of_fault clean read, rfl, by simp, parser, by simp⟩
    · exact ⟨.lexer, _, _, parse_of_lexical clean, rfl, clean, lexer,
        fun d found => by simp [parser d found]⟩
  | ok block =>
    have parser : ∀ d ∈ block.diagnostics, d.phase = .parser :=
      fun d found => (block.diagnostics_stage d found).1.1
    have semantic : ∀ d ∈ errorsOf (validate (block.build text.toList).1
        (block.build text.toList).2), d.phase = .semantic :=
      fun d found => (validate_stage _ _ d (List.mem_filter.mp found).1).1
    rw [errors_of_block read] at faulty ⊢
    -- The first row that is not empty decides, whichever stage it is from.
    by_cases clean : (scan text.toList).diagnostics = []
    · rw [clean, List.nil_append] at faulty ⊢
      rw [parse_of_block clean read]
      by_cases complete : block.diagnostics = []
      · rw [complete, List.nil_append] at faulty ⊢
        rw [if_neg (not_not_intro rfl)]
        exact ⟨.semantic, _, [], if_pos faulty, (List.append_nil _).symm, faulty, semantic, by simp⟩
      · exact ⟨.parser, _, _, if_pos complete, rfl, complete, parser,
          fun d found => by simp [semantic d found]⟩
    · refine ⟨.lexer, _, _, parse_of_lexical clean, rfl, clean, lexer, fun d found => ?_⟩
      rcases List.mem_append.mp found with syntactic | later
      · simp [parser d syntactic]
      · simp [semantic d later]

/-- Where tolerant reading finds errors, strict reading fails with those of the stage that found the
first. -/
theorem parse_of_errors {text : String} (faulty : (tolerant text).errors ≠ []) :
    ∃ row first rest, parse text = .error ⟨row⟩ ∧ (tolerant text).errors = first :: rest ∧
      row = (tolerant text).errors.filter (·.phase = first.phase) := by
  obtain ⟨stage, row, later, failed, split, nonempty, own, others⟩ := exists_first_row faulty
  obtain ⟨first, rest, cut, same⟩ := first_row_eq_filter later nonempty own others
  rw [← split] at cut same
  exact ⟨row, first, rest, failed, cut, same⟩

/-- **Strict and tolerant reading agree on every text.** Let `outcome` be what tolerant reading
gives with no file, no failing and all warnings. It foretells strict reading, a project and its
source map are there together or not at all, and any other way of reading tolerantly follows from
it. -/
theorem parse_agrees_with_analyze (text : String) :
    ∃ outcome,
      analyze text none { failOnError := false, semanticWarnings := true } = .ok outcome ∧
      -- Strict reading succeeds exactly when there is no error, and with the same project.
      ((∃ project, parse text = .ok project) ↔ outcome.errors = []) ∧
      (∀ project, parse text = .ok project →
        outcome.project?.map Project.clearIds = some project ∧ project.screens ≠ []) ∧
      -- Otherwise it gives the errors of the stage that found the first one.
      (∀ e, parse text = .error e → ∃ first rest, outcome.errors = first :: rest ∧
        e.diagnostics = outcome.errors.filter (·.phase = first.phase)) ∧
      -- Without a project there is one diagnostic of the parser after those of the lexer.
      (outcome.project?.isSome ↔ outcome.map?.isSome) ∧
      (outcome.project? = none → ∃ fault,
        outcome.diagnostics = (scan text.toList).diagnostics ++ [fault] ∧
        (∀ d ∈ (scan text.toList).diagnostics, d.phase = .lexer) ∧ fault.phase = .parser) ∧
      -- What the options change.
      (∀ options, analyze text none options =
        if options.failOnError = true ∧ outcome.errors ≠ [] then .error ⟨outcome.errors⟩
        else
          .ok
            { outcome with
              diagnostics :=
                if options.semanticWarnings then outcome.diagnostics else outcome.errors }) ∧
      -- What naming a file changes.
      (∀ path options, analyze text (some path) options =
        match analyze text none options with
        | .error e => .error (e.withFile path)
        | .ok a => .ok (a.withFile path)) := by
  refine ⟨tolerant text, ?_, ⟨?_, ?_⟩, ?_, ?_, ?_, ?_, analyze_none text,
    fun path options => analyze_some text path options⟩
  · rw [analyze_none]
    simp
  -- Strict reading goes one way or the other by whether there is an error, and it cannot go both.
  · rintro ⟨project, accepted⟩
    by_contra faulty
    obtain ⟨row, first, rest, failed, -⟩ := parse_of_errors faulty
    simp [failed] at accepted
  · intro clean
    obtain ⟨project, -, accepted, -⟩ := parse_of_no_errors clean
    exact ⟨_, accepted⟩
  · intro project accepted
    by_cases clean : (tolerant text).errors = []
    · obtain ⟨built, found, same, screens⟩ := parse_of_no_errors clean
      obtain rfl := Except.ok.inj (same.symm.trans accepted)
      exact ⟨by rw [found]; rfl, screens⟩
    · obtain ⟨row, first, rest, failed, -⟩ := parse_of_errors clean
      simp [failed] at accepted
  · intro e failed
    by_cases clean : (tolerant text).errors = []
    · obtain ⟨built, -, accepted, -⟩ := parse_of_no_errors clean
      simp [accepted] at failed
    · obtain ⟨row, first, rest, same, split, filtered⟩ := parse_of_errors clean
      obtain rfl := Except.error.inj (same.symm.trans failed)
      exact ⟨first, rest, split, filtered⟩
  · simp [Analysis.project?, Analysis.map?]
  -- A project is missing only after a fault, and nothing is validated then.
  · intro missing
    cases read : ProjectBlock.ofLexemes (scan text.toList).lexemes with
    | error fault =>
      refine ⟨fault.diagnostic, by rw [tolerant_of_fault read], ?_, fault.diagnostic_stage.1.1⟩
      exact fun d found => (scan_stage _ d found).1.1
    | ok block =>
      rw [tolerant_of_block read] at missing
      simp [Analysis.project?] at missing

end Wireframe
