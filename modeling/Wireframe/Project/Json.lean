import Wireframe.Json
import Wireframe.Project

/-!
# Projects as JSON

Where several kinds of thing can stand, the first member tells which one it is. Ids are left out
where there are none.

## Main definitions

* `PropertyValue.toJson` — texts as strings, numbers as numbers.
* `Project.toJson` — projects with all their parts.
-/

namespace Wireframe

open Json

/-- A property value as a document. -/
def PropertyValue.toJson : PropertyValue → Json
  | .text s => .string s
  | .number x => .number x

/-- Properties as a document. -/
def propertiesToJson (properties : Properties) : Json :=
  Json.ofMap PropertyValue.toJson properties

/-- The member for an id. -/
def idMember (id : Option NodeId) : List (String × Json) :=
  optional "sourceMapId" .string id

/-- The members of a component. -/
def Component.members (c : Component) : List (String × Json) :=
  member "componentType" (.string c.kind) ++ member "props" (propertiesToJson c.properties) ++
    idMember c.id

/-- The members of a layout, from its children. -/
def LayoutNode.members (l : LayoutNode) (children : List Json) : List (String × Json) :=
  member "layoutType" (.string l.kind) ++ member "params" (propertiesToJson l.params) ++
    member "children" (.array children) ++ idMember l.id

/-- The members of a cell, from its children. -/
def CellNode.members (k : CellNode) (children : List Json) : List (String × Json) :=
  member "props" (propertiesToJson k.properties) ++ member "children" (.array children) ++
    idMember k.id

/-- An object that begins with its kind. -/
def tagged (kind : String) (members : List (String × Json)) : Json :=
  .object (member "kind" (.string kind) ++ members)

/-- An element as a document. -/
def elementToJson : Element → Json :=
  Tree.fold (fun c => tagged "component" c.members) (fun l => tagged "layout" ∘ l.members)
    (fun k => tagged "cell" ∘ k.members)

/-- The members of a layout with all that is inside it. -/
def layoutMembers (l : Layout) : List (String × Json) :=
  l.layout.members (l.children.map elementToJson)

/-- The body of a component definition as a document. -/
def Body.toJson : Body → Json
  | .layout l => tagged "layout" (layoutMembers l)
  | .component c => tagged "component" c.members

/-- A definition as a document. -/
def Definition.toJson : Definition → Json
  | .component d =>
    tagged "component" (member "name" (.string d.name) ++ member "body" d.body.toJson ++
      idMember d.id)
  | .layout d =>
    tagged "layout" (member "name" (.string d.name) ++
      member "layout" (.object (layoutMembers d.layout)) ++ idMember d.id)

/-- A screen as a document. -/
def Screen.toJson (s : Screen) : Json :=
  .object (member "name" (.string s.name) ++ member "params" (propertiesToJson s.params) ++
    member "layout" (.object (layoutMembers s.layout)) ++ idMember s.id)

/-- A project as a document. -/
def Project.toJson (p : Project) : Json :=
  .object (
    member "name" (.string p.name) ++
    member "style" (Json.ofMap .string p.style) ++
    member "mocks" (Json.ofMap .string p.mocks) ++
    member "colors" (Json.ofMap .string p.colors) ++
    member "definitions" (.array (p.definitions.map Definition.toJson)) ++
    member "screens" (.array (p.screens.map Screen.toJson)) ++
    idMember p.id)

end Wireframe
