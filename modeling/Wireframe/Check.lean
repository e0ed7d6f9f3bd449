import Wireframe.Analysis.Json
import Wireframe.Arguments
import Wireframe.Files
import Wireframe.Notice
import Wireframe.Toml.Settings

/-!
# Checks

A check reads its settings and one file, and reports what is wrong with the project in that file.
It asks for files in a fixed order: the settings, the file, and last, if wanted, the place for the
source map. In strict mode an error ends it before anything is written. How files are reached and
how the text of a settings file is read are parameters.

## Main definitions

* `CheckError` — why a check has no report.
* `Report` — what a check reports.
* `loadConfig` — the settings that hold for a check.
* `check` — a whole check.
-/

namespace Wireframe

/-- Why there are no settings. -/
inductive ConfigError where
  | unreadable (path : String) (reason : FileError)
  | malformed
  | missing (path : String)
  deriving DecidableEq, Repr

/-- The reason in words. -/
def ConfigError.message : ConfigError → String
  | .unreadable path reason => s!"Failed to read configuration file {path}: {reason.message}"
  | .malformed => "Failed to parse TOML configuration"
  | .missing path => s!"Missing configuration file: {path}"

/-- Why a check has no report. -/
inductive CheckError where
  | file (reason : FileError)
  | config (reason : ConfigError)
  | parse (reason : ParseError)
  deriving DecidableEq, Repr

namespace CheckError

/-- The reason in words. -/
def message : CheckError → String
  | .file reason => s!"I/O error: {reason.message}"
  | .config reason => reason.message
  | .parse reason => reason.message

/-- What to show for a failed check: one notice for each error in the project, or one for the
failure itself. -/
def notices (e : CheckError) : List Notice :=
  match e with
  | .file _ => [{ message := e.message, code := some "wireloom::io", hasCause := true }]
  | .config reason =>
    let hasCause := match reason with
      | .unreadable _ _ => true
      | .malformed | .missing _ => false
    [{ message := e.message, code := some "wireloom::config", hasCause }]
  | .parse reason => reason.diagnostics.map Diagnostic.notice

end CheckError

/-- What a check prints. -/
inductive Output where
  | notices (notices : List Notice)
  | json (text : String)
  deriving DecidableEq, Repr

/-- What a check reports. -/
structure Report where
  errors : Nat
  warnings : Nat
  /-- Whether the project is refused. -/
  failed : Bool
  output : Output
  deriving DecidableEq, Repr

/-- The settings file of the project in the working directory. -/
def localConfigPath : String :=
  "wireloom/config.toml"

section

variable {m : Type → Type} [Monad m]

/-- The settings in a file. -/
def readConfig (files : FileAccess m) (path : String) (settings : SettingsReader) :
    m (Except ConfigError Config) := do
  if ← files.occupied path then
    match ← files.read path with
    | .error reason => return .error (.unreadable path reason)
    | .ok text =>
      match settings text with
      | none => return .error .malformed
      | some config => return .ok config
  else
    return .error (.missing path)

/-- The settings that hold: those of the file asked for, or else of the first file that there is. -/
def loadConfig (files : FileAccess m) (systemPath : String) (asked : Option String)
    (settings : SettingsReader) : m (Except ConfigError Config) := do
  match asked with
  | some path => readConfig files path settings
  | none =>
    if ← files.occupied localConfigPath then readConfig files localConfigPath settings
    else if ← files.occupied systemPath then readConfig files systemPath settings
    else return .ok {}

/-- What to report about an analysis. -/
def Analysis.report (a : Analysis) (format : ReportFormat) (denyWarnings : Bool) : Report where
  errors := a.errors.length
  warnings := a.warnings.length
  failed := a.hasErrors || (denyWarnings && !a.warnings.isEmpty)
  output :=
    match format with
    | .human => .notices (a.diagnostics.map Diagnostic.notice)
    | .json => .json (a.toJson.render .pretty)

/-- The text of a source map file. -/
def Analysis.mapText (a : Analysis) : String :=
  (Json.nullable SourceMap.toJson a.map?).render .pretty

/-- Write the source map where it is wanted. -/
def writeMap (files : FileAccess m) (a : Analysis) : Option String → m (Except FileError Unit)
  | none => return .ok ()
  | some path => files.write path a.mapText

/-- Check a text under settings. -/
def checkText (args : Arguments) (config : Config) (text : String) : Except ParseError Analysis :=
  analyze text (some args.input) ⟨args.strict, config.semanticWarnings⟩

/-- Check a file. -/
def check (files : FileAccess m) (systemPath : String) (args : Arguments)
    (settings : SettingsReader := Config.ofText?) : m (Except CheckError Report) := do
  match ← loadConfig files systemPath args.config settings with
  | .error reason => return .error (.config reason)
  | .ok config =>
    match ← files.read args.input with
    | .error reason => return .error (.file reason)
    | .ok text =>
      match checkText args config text with
      | .error reason => return .error (.parse reason)
      | .ok a =>
        match ← writeMap files a args.sourceMap with
        | .error reason => return .error (.file reason)
        | .ok () =>
          let format := args.format.getD config.format
          return .ok (a.report format (args.denyWarnings || config.denyWarnings))

end

end Wireframe
