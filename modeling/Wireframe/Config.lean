import Wireframe.Arguments

/-!
# Settings of a check

## Main definitions

* `Config` — the settings, with what holds where a file says nothing.
* `SettingsReader` — how the text of a settings file is read.
-/

namespace Wireframe

/-- The settings of a check. -/
structure Config where
  semanticWarnings : Bool := true
  denyWarnings : Bool := false
  format : ReportFormat := .human
  deriving DecidableEq, Repr

/-- How the text of a settings file is read: as settings, unless it is malformed. -/
abbrev SettingsReader :=
  String → Option Config

end Wireframe
