import Wireframe.Problem
import Wireframe.SourceMap

/-!
# Findings

A finding is a problem at a node of a project. It says nothing about the text: only the source map
knows where the node stands.

## Main definitions

* `Finding` — a problem and the id of its node.
* `SourceMap.rangeOf?` — where a part of a node stands.
* `Finding.diagnostic` — how a finding is reported over a source map.
-/

namespace Wireframe

/-- A problem at a node. -/
structure Finding where
  problem : Problem
  node : Option NodeId
  deriving Repr

/-- Where a property of an entry stands. -/
def Entry.property? (e : Entry) (name : String) : Option PropertyPlace :=
  e.properties.bind (·.get? name)

/-- Where a part of an entry stands. The whole entry stands in for a part that it does not have. -/
def Entry.rangeOf (e : Entry) : Place → CodeRange
  | .node => e.range
  | .name => e.nameRange.getD e.range
  | .propertyName property => ((e.property? property).map (·.nameRange)).getD e.range
  | .propertyValue property => ((e.property? property).map (·.valueRange)).getD e.range

/-- Where a part of a node stands; none for a node that the map does not know. -/
def SourceMap.rangeOf? (map : SourceMap) (node : Option NodeId) (place : Place) :
    Option CodeRange :=
  (node.bind map.find?).map (·.rangeOf place)

/-- A finding as a diagnostic. The source map only says where it points. -/
def Finding.diagnostic (map : SourceMap) (f : Finding) : Diagnostic where
  code := f.problem.code
  severity := f.problem.severity
  message := f.problem.message
  range := (map.rangeOf? f.node f.problem.place).getD .origin
  nodeId := f.node
  suggestion := some f.problem.suggestion

end Wireframe
