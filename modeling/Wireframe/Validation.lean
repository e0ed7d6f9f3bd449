import Wireframe.Project.Visitor
import Wireframe.Reference
import Wireframe.Validation.Definitions
import Wireframe.Validation.Elements

/-!
# Validation

All rules for a project together: first those for definitions, then those for the elements of
definitions and of screens, and last the one against circular definitions.

## Main definitions

* `Project.findings` — everything that is wrong with a project.
* `validate` — the same as diagnostics over a source map.
-/

namespace Wireframe

namespace Project

/-- What the rules for an element depend on. The slot for children has its place in the definitions
of layouts only. -/
def scope (project : Project) (slotAllowed : Bool) : Scope :=
  ⟨project.componentNames, project.layoutNames, slotAllowed⟩

/-- What is wrong with the elements of a project, definitions first. -/
def elementFindings (project : Project) : List Finding :=
  project.definitions.flatMap (fun d => d.body.gather (project.scope d.isLayout).judge) ++
    project.screens.flatMap fun s => s.layout.toTree.gather (project.scope false).judge

/-- All chains of circular definitions are one finding, at the project. -/
def cycleFindings (project : Project) : List Finding :=
  match project.references.chains with
  | [] => []
  | chains => [⟨.definitionCycle (chains.map (·.map Reference.name)), project.id⟩]

/-- Everything that is wrong with a project. -/
def findings (project : Project) : List Finding :=
  definitionFindings [] project.definitions ++ project.elementFindings ++ project.cycleFindings

end Project

/-- What is wrong with a project, placed by a source map. -/
def validate (project : Project) (map : SourceMap) : List Diagnostic :=
  project.findings.map (Finding.diagnostic map)

end Wireframe
