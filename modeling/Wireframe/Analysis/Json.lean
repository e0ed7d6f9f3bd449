import Wireframe.Analysis
import Wireframe.SourceMap.Json

/-!
# Analyses as JSON
-/

namespace Wireframe

open Json

/-- An analysis as a document. -/
def Analysis.toJson (a : Analysis) : Json :=
  .object (
    member "ast" (nullable Project.toJson a.project?) ++
    member "sourceMap" (nullable SourceMap.toJson a.map?) ++
    member "diagnostics" (.array (a.diagnostics.map Diagnostic.toJson)) ++
    optional "path" .string a.path)

end Wireframe
