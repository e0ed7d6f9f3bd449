import Wireframe.Diagnostic
import Wireframe.Value

/-!
# Source maps

A source map lists the parts of a project in written order and tells where each of them, and each
of its properties, stands in the text.

## Main definitions

* `NodeKind`, `Subject` — what an entry is about.
* `PropertyPlace` — where a property stands.
* `InsertionPoint` — where one more child can be written into a container.
* `Entry` — one part of a project.
* `SourceMap` — the entries in written order.
-/

namespace Wireframe

/-- The kinds of entry. -/
inductive NodeKind where
  | project
  | theme
  | mocks
  | colors
  | screen
  | layout
  | cell
  | component
  | componentDefinition
  | layoutDefinition
  deriving DecidableEq, Repr

namespace NodeKind

/-- Every kind. -/
def all : List NodeKind :=
  [.project, .theme, .mocks, .colors, .screen, .layout, .cell, .component, .componentDefinition,
    .layoutDefinition]

/-- The name of a kind. -/
def name : NodeKind → String
  | .project => "project"
  | .theme => "theme"
  | .mocks => "mocks"
  | .colors => "colors"
  | .screen => "screen"
  | .layout => "layout"
  | .cell => "cell"
  | .component => "component"
  | .componentDefinition => "component-definition"
  | .layoutDefinition => "layout-definition"

/-- Whether entries of this kind can hold others. -/
def isContainer : NodeKind → Bool
  | .project | .screen | .layout | .cell | .componentDefinition | .layoutDefinition => true
  | .theme | .mocks | .colors | .component => false

end NodeKind

/-- What an entry is about. -/
inductive Subject where
  | project (name : String)
  | theme
  | mocks
  | colors
  | screen (name : String)
  | layout (kind : String) (userDefined : Bool)
  | cell
  | component (kind : String) (userDefined : Bool)
  | componentDefinition (name : String)
  | layoutDefinition (name : String)
  deriving DecidableEq, Repr

namespace Subject

/-- The kind of a subject. -/
def kind : Subject → NodeKind
  | .project _ => .project
  | .theme => .theme
  | .mocks => .mocks
  | .colors => .colors
  | .screen _ => .screen
  | .layout _ _ => .layout
  | .cell => .cell
  | .component _ _ => .component
  | .componentDefinition _ => .componentDefinition
  | .layoutDefinition _ => .layoutDefinition

/-- The name of a project, screen or definition. -/
def name? : Subject → Option String
  | .project s | .screen s | .componentDefinition s | .layoutDefinition s => some s
  | _ => none

/-- The type of a layout. -/
def layoutType? : Subject → Option String
  | .layout s _ => some s
  | _ => none

/-- The type of a component. -/
def componentType? : Subject → Option String
  | .component s _ => some s
  | _ => none

/-- The type of a component or layout. -/
def subtype? : Subject → Option String
  | .component s _ | .layout s _ => some s
  | _ => none

/-- Whether the type of a component or layout is defined by the project. -/
def userDefined? : Subject → Option Bool
  | .component _ b | .layout _ b => some b
  | _ => none

end Subject

/-- Where a property stands, and the value it gives. -/
structure PropertyPlace where
  name : String
  value : PropertyValue
  range : CodeRange
  nameRange : CodeRange
  valueRange : CodeRange
  deriving Repr

/-- Where one more child can be written into a container. -/
structure InsertionPoint where
  line : Nat
  column : Nat
  /-- The blanks that open the new line. -/
  indentation : String
  /-- The child that the new one would follow. -/
  after : Option NodeId
  deriving DecidableEq, Repr

/-- One part of a project. -/
structure Entry where
  id : NodeId
  subject : Subject
  parent : Option NodeId
  range : CodeRange
  keywordRange : CodeRange
  nameRange : Option CodeRange := none
  bodyRange : Option CodeRange := none
  properties : Option (OrderedMap PropertyPlace) := none
  insertion : Option InsertionPoint := none
  deriving Repr

/-- The kind of an entry. -/
def Entry.kind (e : Entry) : NodeKind :=
  e.subject.kind

/-- The parts of a project in written order. -/
structure SourceMap where
  entries : List Entry
  deriving Repr, Inhabited

namespace SourceMap

/-- The map with no entries. -/
def empty : SourceMap :=
  ⟨[]⟩

/-- The first entry with a given id. -/
def find? (map : SourceMap) (id : NodeId) : Option Entry :=
  map.entries.find? (·.id == id)

end SourceMap

end Wireframe
