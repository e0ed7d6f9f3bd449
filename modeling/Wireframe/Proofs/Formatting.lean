import Wireframe.Proofs.Analysis
import Wireframe.Proofs.Outline
import Wireframe.Proofs.Recutting

/-!
# Formatting carries no meaning

If nothing is wrong with the tokens of a text, the text may be replaced by its tokens with single
spaces between them. The tokens stay the same, so both texts are read to blocks that differ only in
where they stand, and what is made of blocks differs only in places: projects are equal with all
their ids, source maps list the same entries, and the diagnostics say the same.

## Main definitions

* `spaced` — tokens with single spaces between them.
* `Diagnostic.unplaced`, `Analysis.unplaced` — diagnostics and answers without places.
* `MeansTheSame` — two texts are answered alike up to places.

## Main results

* `scan_spaced` — spaced tokens are found again.
* `unplaced_tolerant` — texts with the same tokens give the same answer up to places.
* `formatting_carries_no_meaning` — a text means what its spaced tokens mean.
-/

namespace Wireframe

/-! ### Spaced tokens -/

/-- The tokens of a text, with a single space between any two of them. -/
def spaced (ls : List Lexeme) : String :=
  " ".intercalate (ls.map Lexeme.text)

/-- Tokens as pieces, with a single space between any two of them. -/
def spacedPieces (ts : List Token) : List Piece :=
  (ts.map Piece.token).intersperse (.trivia [' '])

theorem text_spacedPieces (ls : List Lexeme) :
    (spacedPieces (ls.map Lexeme.token)).flatMap Piece.text = (spaced ls).toList := by
  rw [spaced, String.toList_intercalate]
  induction ls with
  | nil => rfl
  | cons l ls ih =>
    cases ls with
    | nil => simp [spacedPieces, Piece.text, Lexeme.text]
    | cons m ls =>
      have space : " ".toList = [' '] := rfl
      simp only [List.map_cons, List.intercalate_cons_cons, space, List.append_assoc] at ih ⊢
      exact congrArg (fun rest => l.text.toList ++ ([' '] ++ rest)) ih

theorem wellCut_spacedPieces {ts : List Token} (proper : ∀ t ∈ ts, t.Proper) :
    WellCut (spacedPieces ts) := by
  induction ts with
  | nil => exact .nil
  | cons t ts ih =>
    obtain ⟨first, others⟩ := List.forall_mem_cons.mp proper
    cases ts with
    | nil => exact .token first t.endsBefore_nil .nil
    | cons u ts =>
      have blank : ∀ c ∈ [' '], isBlank c = true := List.forall_mem_singleton.mpr rfl
      exact .token first (t.endsBefore_blank rfl _) (.trivia (.blanks blank) (ih others))

theorem token?_spacedPieces (ts : List Token) :
    (spacedPieces ts).filterMap Piece.token? = ts := by
  induction ts with
  | nil => rfl
  | cons t ts ih =>
    cases ts with
    | nil => rfl
    | cons u ts => exact congrArg (t :: ·) ih

/-- Spaced tokens are found again, and nothing is wrong with them. -/
theorem scan_spaced {text : List Char} (clean : (scan text).diagnostics = []) :
    (scan (spaced (scan text).lexemes).toList).diagnostics = [] ∧
      (scan (spaced (scan text).lexemes).toList).lexemes.map Lexeme.token =
        (scan text).lexemes.map Lexeme.token := by
  have again := scan_of_wellCut (wellCut_spacedPieces (proper_of_clean clean))
  rwa [text_spacedPieces, token?_spacedPieces] at again

/-! ### Reading rows with the same tokens -/

/-- Rows with the same tokens are read to the same blocks or to the same fault, up to where the
tokens stand. -/
inductive ReadAlike : Except SyntaxFault ProjectBlock → Except SyntaxFault ProjectBlock → Prop
  | block {block other : ProjectBlock} : block.bare = other.bare →
      ReadAlike (.ok block) (.ok other)
  | fault {fault other : SyntaxFault} : fault.bare = other.bare →
      ReadAlike (.error fault) (.error other)

theorem readAlike {ls ms : List Lexeme} (same : ls.map Lexeme.token = ms.map Lexeme.token) :
    ReadAlike (ProjectBlock.ofLexemes ls) (ProjectBlock.ofLexemes ms) := by
  have bare := ofLexemes_bare ls
  rw [map_bare_eq same, ofLexemes_bare] at bare
  cases first : ProjectBlock.ofLexemes ls with
  | ok block =>
    cases second : ProjectBlock.ofLexemes ms with
    | ok other =>
      rw [first, second] at bare
      exact .block (Except.ok.inj bare).symm
    | error other =>
      rw [first, second] at bare
      contradiction
  | error fault =>
    cases second : ProjectBlock.ofLexemes ms with
    | ok other =>
      rw [first, second] at bare
      contradiction
    | error other =>
      rw [first, second] at bare
      exact .fault (Except.error.inj bare).symm

/-! ### Answers without places -/

/-- A diagnostic without its place. -/
def Diagnostic.unplaced (d : Diagnostic) : Diagnostic :=
  { d with range := .origin }

/-- An error without places. -/
def ParseError.unplaced (e : ParseError) : ParseError :=
  ⟨e.diagnostics.map Diagnostic.unplaced⟩

/-- An answer without places. The project has none anyway. -/
def Analysis.unplaced (a : Analysis) : Analysis where
  built := a.built.map fun built => (built.1, built.2.unplaced)
  diagnostics := a.diagnostics.map Diagnostic.unplaced
  path := a.path

theorem SyntaxFault.unplaced_diagnostic (fault : SyntaxFault) :
    fault.bare.diagnostic.unplaced = fault.diagnostic.unplaced := by
  cases fault <;> rfl

theorem ProjectBlock.unplaced_diagnostics (block : ProjectBlock) :
    block.bare.diagnostics.map Diagnostic.unplaced =
      block.diagnostics.map Diagnostic.unplaced := by
  have each : block.bare.screens = block.screens.map fun s =>
      ⟨s.head.bare, LayoutBlock.grafted .nothing s.layout, s.closing.bare⟩ := by
    rw [screens, screens, bare, grafted, List.filterMap_map, List.map_filterMap]
    refine List.filterMap_congr fun item _ => ?_
    cases item with
    | settings | screen => rfl
    | definition block => cases block <;> rfl
  rw [diagnostics, diagnostics, each, List.isEmpty_map]
  split <;> rfl

/-- A source map only places what is found in a project. -/
theorem unplaced_validate (project : Project) (map other : SourceMap) :
    (validate project map).map Diagnostic.unplaced =
      (validate project other).map Diagnostic.unplaced := by
  rw [validate, validate, List.map_map, List.map_map]
  rfl

/-- Texts with the same tokens give the same answer up to places, if nothing is wrong with the
tokens. -/
theorem unplaced_tolerant {text other : String} (clean : (scan text.toList).diagnostics = [])
    (clean' : (scan other.toList).diagnostics = [])
    (same : (scan text.toList).lexemes.map Lexeme.token =
      (scan other.toList).lexemes.map Lexeme.token) :
    (tolerant text).unplaced = (tolerant other).unplaced := by
  -- Either both rows are read to blocks or both to faults.
  have alike := readAlike same
  cases first : ProjectBlock.ofLexemes (scan text.toList).lexemes with
  | error fault =>
    cases second : ProjectBlock.ofLexemes (scan other.toList).lexemes with
    | ok block =>
      rw [first, second] at alike
      contradiction
    | error fault' =>
      rw [first, second] at alike
      cases alike with
      | fault bare =>
        rw [tolerant_of_fault first, tolerant_of_fault second, clean, clean', Analysis.unplaced,
          Analysis.unplaced]
        simp only [List.nil_append, List.map_cons, ← fault.unplaced_diagnostic, bare,
          fault'.unplaced_diagnostic, List.map_nil, Option.map_none]
  | ok block =>
    cases second : ProjectBlock.ofLexemes (scan other.toList).lexemes with
    | error fault =>
      rw [first, second] at alike
      contradiction
    | ok block' =>
      rw [first, second] at alike
      cases alike with
      | block bare =>
        have project : (block.build text.toList).1 = (block'.build other.toList).1 := by
          rw [block.build_eq, block'.build_eq, ← block.lowered_bare, bare, block'.lowered_bare]
        have map : (block.build text.toList).2.unplaced =
            (block'.build other.toList).2.unplaced := by
          rw [ProjectBlock.unplaced_build first, bare, ProjectBlock.unplaced_build second]
        rw [tolerant_of_block first, tolerant_of_block second, clean, clean', Analysis.unplaced,
          Analysis.unplaced]
        simp only [List.nil_append, List.map_append, ← block.unplaced_diagnostics, bare,
          block'.unplaced_diagnostics, Option.map_some, project, map,
          unplaced_validate _ (block.build text.toList).2 (block'.build other.toList).2]

/-- Two texts are answered alike up to places, however they are read. -/
structure MeansTheSame (text other : String) : Prop where
  tolerant : ∀ path options,
    ((analyze text path options).map Analysis.unplaced).mapError ParseError.unplaced =
      ((analyze other path options).map Analysis.unplaced).mapError ParseError.unplaced
  strict : (parse text).mapError ParseError.unplaced = (parse other).mapError ParseError.unplaced

/-! ### Answers under any options -/

theorem errorsOf_unplaced (diagnostics : List Diagnostic) :
    errorsOf (diagnostics.map Diagnostic.unplaced) =
      (errorsOf diagnostics).map Diagnostic.unplaced := by
  rw [errorsOf, List.filter_map]
  rfl

section Alike

variable {text other : String} (alike : (tolerant text).unplaced = (tolerant other).unplaced)

include alike

theorem unplaced_errors : (tolerant text).errors.map Diagnostic.unplaced =
    (tolerant other).errors.map Diagnostic.unplaced := by
  have diagnostics := congrArg Analysis.diagnostics alike
  have errors := congrArg errorsOf diagnostics
  simp only [Analysis.unplaced, errorsOf_unplaced] at errors
  exact errors

theorem errors_eq_nil_iff : (tolerant text).errors = [] ↔ (tolerant other).errors = [] := by
  rw [← List.map_eq_nil_iff, unplaced_errors alike, List.map_eq_nil_iff]

/-- Answers that agree up to places agree under all options and for all files. -/
theorem unplaced_analyze (path : Option String) (options : AnalysisOptions) :
    ((analyze text path options).map Analysis.unplaced).mapError ParseError.unplaced =
      ((analyze other path options).map Analysis.unplaced).mapError ParseError.unplaced := by
  -- It makes no difference whether the file is named or the place is dropped first.
  have named : ∀ {ds es : List Diagnostic},
      ds.map Diagnostic.unplaced = es.map Diagnostic.unplaced →
      (ds.map fun d => { d with file := path }).map Diagnostic.unplaced =
        (es.map fun d => { d with file := path }).map Diagnostic.unplaced := by
    intro ds es same
    have swapped := congrArg (List.map fun d => { d with file := path }) same
    rw [List.map_map, List.map_map] at swapped ⊢
    exact swapped
  have errors := unplaced_errors alike
  have built := congrArg Analysis.built alike
  have diagnostics := congrArg Analysis.diagnostics alike
  simp only [Analysis.unplaced] at built diagnostics
  rw [analyze_eq, analyze_eq]
  by_cases fails : options.failOnError = true ∧ (tolerant text).errors ≠ []
  · rw [if_pos fails, if_pos ⟨fails.1, mt (errors_eq_nil_iff alike).mpr fails.2⟩]
    simp only [Except.map, Except.mapError, ParseError.unplaced, named errors]
  · have fails' : ¬ (options.failOnError = true ∧ (tolerant other).errors ≠ []) :=
      fun both => fails ⟨both.1, mt (errors_eq_nil_iff alike).mp both.2⟩
    rw [if_neg fails, if_neg fails']
    simp only [Except.map, Except.mapError, Analysis.unplaced, built]
    cases options.semanticWarnings with
    | true => simp only [if_true, named diagnostics]
    | false => simp only [Bool.false_eq_true, if_false, named errors]

/-- Strict reading agrees up to places where tolerant reading does. -/
theorem unplaced_parse :
    (parse text).mapError ParseError.unplaced = (parse other).mapError ParseError.unplaced := by
  by_cases clean : (tolerant text).errors = []
  · obtain ⟨project, found, accepted, -⟩ := parse_of_no_errors clean
    obtain ⟨project', found', accepted', -⟩ :=
      parse_of_no_errors ((errors_eq_nil_iff alike).mp clean)
    have built := congrArg Analysis.project? alike
    simp only [Analysis.project?, Analysis.unplaced, Option.map_map] at built found found'
    have same : some project = some project' := by
      rw [← found, ← found']
      exact built
    rw [accepted, accepted', Option.some.inj same]
  · obtain ⟨row, first, rest, failed, split, filtered⟩ := parse_of_errors clean
    obtain ⟨row', first', rest', failed', split', filtered'⟩ :=
      parse_of_errors (mt (errors_eq_nil_iff alike).mpr clean)
    have errors := unplaced_errors alike
    have heads : first.unplaced.phase = first'.unplaced.phase := by
      have same := errors
      rw [split, split'] at same
      rw [(List.cons.inj same).1]
    -- The stage is told by the code, so it may be asked for with or without the places.
    have rows : row.map Diagnostic.unplaced = row'.map Diagnostic.unplaced := by
      have kept := congrArg (List.filter (·.phase = first'.phase)) errors
      rw [List.filter_map, List.filter_map] at kept
      have phase : first.phase = first'.phase := heads
      rw [filtered, filtered', phase]
      exact kept
    simp only [failed, failed', Except.mapError, ParseError.unplaced, rows]

end Alike

/-- A text means what its tokens with single spaces between them mean, and these are the tokens of
both. -/
theorem formatting_carries_no_meaning {text : String} {ls : List Lexeme}
    (accepted : lexemes? text.toList = .ok ls) :
    (∃ ms, lexemes? (spaced ls).toList = .ok ms ∧ ms.map Lexeme.token = ls.map Lexeme.token) ∧
      MeansTheSame (spaced ls) text := by
  obtain ⟨clean, rfl⟩ := lexemes?_eq_ok_iff.mp accepted
  obtain ⟨clean', same⟩ := scan_spaced clean
  have alike := unplaced_tolerant clean' clean same
  exact ⟨⟨_, lexemes?_of_clean clean', same⟩, unplaced_analyze alike, unplaced_parse alike⟩

/-- A text with comments, on several lines. -/
def remarkText : String :=
  "/* A note */ project \"Remarks\" \x7b\n" ++
  "  screen Main(title:\"Home\")\x7b // one screen\n" ++
  "    layout stack\x7bcomponent Text value:\"//\" component Box\x7d\x7d\x7d"

theorem formatting_remarkText : ∃ ls, lexemes? remarkText.toList = .ok ls ∧
    (∃ ms, lexemes? (spaced ls).toList = .ok ms ∧ ms.map Lexeme.token = ls.map Lexeme.token) ∧
      MeansTheSame (spaced ls) remarkText := by
  have clean : (scan remarkText.toList).diagnostics = [] := by decide +kernel
  have accepted := lexemes?_of_clean clean
  exact ⟨_, accepted, formatting_carries_no_meaning accepted⟩

end Wireframe
