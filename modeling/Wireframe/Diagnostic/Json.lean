import Wireframe.Diagnostic
import Wireframe.Json

/-!
# Diagnostics as JSON

## Main definitions

* `Position.toJson`, `CodeRange.toJson` — places in a text.
* `Diagnostic.toJson` — diagnostics, without the parts that they do not have.
-/

namespace Wireframe

open Json

/-- A position as a document. -/
def Position.toJson (p : Position) : Json :=
  .object (member "line" (.nat p.line) ++ member "column" (.nat p.column) ++
    optional "offset" .nat p.offset)

/-- A range as a document. -/
def CodeRange.toJson (r : CodeRange) : Json :=
  .object (member "start" r.start.toJson ++ member "end" r.stop.toJson)

/-- A diagnostic as a document. -/
def Diagnostic.toJson (d : Diagnostic) : Json :=
  .object (
    member "message" (.string d.message) ++
    member "severity" (.string d.severity.name) ++
    member "phase" (.string d.phase.name) ++
    member "code" (.string d.code.name) ++
    member "range" d.range.toJson ++
    optional "nodeId" .string d.nodeId ++
    optional "suggestion" .string d.suggestion ++
    optional "file" .string d.file)

end Wireframe
