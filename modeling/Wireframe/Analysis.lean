import Wireframe.Block.Reader
import Wireframe.Project.OfBlock
import Wireframe.SourceMap.Insertion
import Wireframe.Token.Scan
import Wireframe.Validation

/-!
# Reading a project

A text is read in two ways. The strict one gives the project of a text in which nothing is wrong,
or the errors of the first stage that has any. The tolerant one goes on past errors as far as it can
and gives all that it could make out, together with every diagnostic.

## Main definitions

* `parse` — the project of a text, read strictly.
* `analyze` — all that can be made out of a text, read tolerantly.
* `Analysis` — what that is.
-/

namespace Wireframe

namespace ProjectBlock

/-- How a project without a screen is reported. -/
def missingScreen (b : ProjectBlock) : Diagnostic where
  code := .missingScreen
  severity := .error
  message := s!"project {b.head.name.text} declares no screen"
  range := b.head.keyword.range.union b.head.name.range
  suggestion := some "add `screen Main \x7b layout stack \x7b \x7d \x7d` inside the project"

/-- What is wrong with the blocks of a project that is written correctly. -/
def diagnostics (b : ProjectBlock) : List Diagnostic :=
  if b.screens.isEmpty then [b.missingScreen] else []

/-- The project of a block and its source map. -/
def build (b : ProjectBlock) (text : List Char) : Project × SourceMap :=
  let (project, entries) := b.lower
  (project, .ofEntries (LineIndex.ofText text) entries)

end ProjectBlock

/-- The errors among diagnostics. -/
def errorsOf (diagnostics : List Diagnostic) : List Diagnostic :=
  diagnostics.filter (·.isError)

/-- Go on only if there is no error among diagnostics. -/
def refuseErrors (diagnostics : List Diagnostic) : Except ParseError Unit :=
  match errorsOf diagnostics with
  | [] => .ok ()
  | errors => .error ⟨errors⟩

/-- The project of a text, without ids. Each stage runs only if those before it found no error, and
warnings never count. -/
def parse (text : String) : Except ParseError Project := do
  let lexemes ← lexemes? text.toList
  let block ← (ProjectBlock.ofLexemes lexemes).mapError fun fault => ⟨[fault.diagnostic]⟩
  refuseErrors block.diagnostics
  let (project, map) := block.build text.toList
  refuseErrors (validate project map)
  return project.clearIds

/-- What to make of what is wrong with a text. -/
structure AnalysisOptions where
  /-- Fail if there is an error. -/
  failOnError : Bool := false
  /-- Report the warnings about a project that is written correctly. -/
  semanticWarnings : Bool := true
  deriving DecidableEq, Repr

/-- All that can be made out of a text. -/
structure Analysis where
  /-- The project and its source map, unless the text is not written correctly. -/
  built : Option (Project × SourceMap)
  /-- What is wrong, stage by stage. -/
  diagnostics : List Diagnostic
  /-- The file that the text is said to come from. -/
  path : Option String
  deriving Repr

namespace Analysis

/-- The project, if there is one. -/
def project? (a : Analysis) : Option Project :=
  a.built.map Prod.fst

/-- The source map, if there is one. -/
def map? (a : Analysis) : Option SourceMap :=
  a.built.map Prod.snd

/-- The errors. -/
def errors (a : Analysis) : List Diagnostic :=
  errorsOf a.diagnostics

/-- The warnings. -/
def warnings (a : Analysis) : List Diagnostic :=
  a.diagnostics.filter (·.isWarning)

/-- Whether there is an error. -/
def hasErrors (a : Analysis) : Bool :=
  !a.errors.isEmpty

end Analysis

/-- All that can be made out of a text. Tokens are read past what is none. -/
def inspect (text : String) (semanticWarnings : Bool) :
    Option (Project × SourceMap) × List Diagnostic :=
  let scanned := scan text.toList
  match ProjectBlock.ofLexemes scanned.lexemes with
  | .error fault => (none, scanned.diagnostics ++ [fault.diagnostic])
  | .ok block =>
    let built := block.build text.toList
    let semantic := (validate built.1 built.2).filter fun d => semanticWarnings || d.isError
    (some built, scanned.diagnostics ++ block.diagnostics ++ semantic)

/-- All that can be made out of a text. If asked to, fail with the errors when there are some. The
path only labels the diagnostics. -/
def analyze (text : String) (path : Option String) (options : AnalysisOptions) :
    Except ParseError Analysis :=
  let (built, found) := inspect text options.semanticWarnings
  let diagnostics := found.map fun d => { d with file := path }
  match options.failOnError, errorsOf diagnostics with
  | true, error :: errors => .error ⟨error :: errors⟩
  | _, _ => .ok { built, diagnostics, path }

end Wireframe
