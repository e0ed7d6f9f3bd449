import Wireframe.Config
import Wireframe.Toml.Reader

/-!
# Settings in tables

A settings file holds tables. Names without a meaning are passed over; a name with a meaning has to
have a value of the right kind.

## Main definitions

* `TomlValue.fields?` — the values of some names, from whatever can stand for a table.
* `Config.ofEntries?` — the settings in the tables of a file.
* `Config.ofText?` — the settings of a text, which is how a check reads them unless it is told
  otherwise.
-/

namespace Wireframe

namespace TomlValue

/-- The values of the given names, in order. Under other names a table may hold whatever can be
held. A list gives its items to the names in order and keeps the rest, and a moment has no names. -/
def fields? (v : TomlValue) (names : List String) : Option (List (Option TomlValue)) :=
  let inOrder (items : List TomlValue) := (List.range names.length).map (items[·]?)
  match v with
  | .table _ entries =>
    if entriesAreHeld (entries.filter fun entry => !names.contains entry.1) then
      some (names.map fun name => entries.lookup name)
    else none
  | .array items => some (inOrder items)
  | .rows held => some (inOrder (held.map (.table .header)))
  | .moment _ => some (names.map fun _ => none)
  | _ => none

/-- A truth value. -/
def boolean? : TomlValue → Option Bool
  | .boolean b => some b
  | _ => none

/-- Whether a value holds nothing. -/
def isHollow : TomlValue → Bool
  | .table _ entries => entries.isEmpty
  | .array items => items.isEmpty
  | _ => false

/-- A format: its name as a text, or as the only name of a table with nothing under it. -/
def format? : TomlValue → Option ReportFormat
  | .string s => ReportFormat.ofName? s
  | .table _ [(name, value)] => if value.isHollow then ReportFormat.ofName? name else none
  | _ => none

/-- What a value means, or a default in its absence. -/
def readOr {α : Type} (read : TomlValue → Option α) (default : α) : Option TomlValue → Option α
  | none => some default
  | some value => read value

end TomlValue

namespace Config

open TomlValue

/-- Settings with what a table says about diagnostics. -/
def withDiagnostics? (c : Config) (v : TomlValue) : Option Config := do
  match ← v.fields? ["include_semantic_warnings", "deny_warnings"] with
  | [semantic, deny] => return { c with
      semanticWarnings := ← readOr boolean? c.semanticWarnings semantic
      denyWarnings := ← readOr boolean? c.denyWarnings deny }
  | _ => none

/-- Settings with what a table says about output. -/
def withOutput? (c : Config) (v : TomlValue) : Option Config := do
  match ← v.fields? ["format"] with
  | [format] => return { c with format := ← readOr format? c.format format }
  | _ => none

/-- The settings in the tables of a file. -/
def ofEntries? (entries : TomlEntries) : Option Config := do
  let c : Config := {}
  match ← (TomlValue.table .header entries).fields? ["diagnostics", "output"] with
  | [diagnostics, output] =>
    let c ← readOr c.withDiagnostics? c diagnostics
    readOr c.withOutput? c output
  | _ => none

/-- The settings of a text. -/
def ofText? (text : String) : Option Config :=
  (Toml.ofText? text).bind ofEntries?

end Config

end Wireframe
