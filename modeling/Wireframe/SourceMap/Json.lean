import Wireframe.Diagnostic.Json
import Wireframe.Project.Json
import Wireframe.SourceMap

/-!
# Source maps as JSON

## Main definitions

* `Entry.toJson` — an entry, without the parts that it does not have. Only the parent is always
  there.
* `SourceMap.toJson` — the entries in order.
-/

namespace Wireframe

open Json

/-- The place of a property as a document. -/
def PropertyPlace.toJson (p : PropertyPlace) : Json :=
  .object (
    member "name" (.string p.name) ++
    member "value" p.value.toJson ++
    member "range" p.range.toJson ++
    member "nameRange" p.nameRange.toJson ++
    member "valueRange" p.valueRange.toJson)

/-- An insertion point as a document. -/
def InsertionPoint.toJson (p : InsertionPoint) : Json :=
  .object (
    member "line" (.nat p.line) ++
    member "column" (.nat p.column) ++
    member "indentation" (.string p.indentation) ++
    optional "after" .string p.after)

/-- An entry as a document. -/
def Entry.toJson (e : Entry) : Json :=
  .object (
    member "nodeId" (.string e.id) ++
    member "type" (.string e.kind.name) ++
    member "range" e.range.toJson ++
    member "keywordRange" e.keywordRange.toJson ++
    optional "nameRange" CodeRange.toJson e.nameRange ++
    optional "bodyRange" CodeRange.toJson e.bodyRange ++
    member "parentId" (nullable .string e.parent) ++
    optional "name" .string e.subject.name? ++
    optional "layoutType" .string e.subject.layoutType? ++
    optional "componentType" .string e.subject.componentType? ++
    optional "isUserDefined" .bool e.subject.userDefined? ++
    optional "properties" (Json.ofMap PropertyPlace.toJson) e.properties ++
    optional "insertionPoint" InsertionPoint.toJson e.insertion)

/-- A source map as a document. -/
def SourceMap.toJson (map : SourceMap) : Json :=
  .array (map.entries.map Entry.toJson)

end Wireframe
