import Wireframe.Diagnostic
import Wireframe.Tree
import Wireframe.Value

/-!
# Projects

What a project means, free of how it is written: screens made of layouts, cells and components,
and the definitions they use. Every part may carry the id of its entry in a source map.

## Main definitions

* `Element` — a component, layout or cell with the elements inside it.
* `Screen`, `Definition`, `Project`.
* `Project.clearIds` — the project without ids.
* `Node` — any part of a project.
* `Project.walk` — all parts of a project, each before the parts inside it.
-/

namespace Wireframe

/-- A component and its properties. -/
structure Component where
  kind : String
  properties : Properties
  id : Option NodeId
  deriving Repr

/-- A layout, apart from its children. -/
structure LayoutNode where
  kind : String
  params : Properties
  id : Option NodeId
  deriving Repr

/-- A cell, apart from its children. -/
structure CellNode where
  properties : Properties
  id : Option NodeId
  deriving Repr

/-- A component, layout or cell with the elements inside it. -/
abbrev Element :=
  Tree Component LayoutNode CellNode

/-- A layout with the elements inside it. -/
abbrev Layout :=
  Rooted Component LayoutNode CellNode

/-- A screen shows one layout. -/
structure Screen where
  name : String
  params : Properties
  layout : Layout
  id : Option NodeId
  deriving Repr

/-- What a component definition stands for. -/
inductive Body where
  | layout (layout : Layout)
  | component (component : Component)
  deriving Repr

/-- The body as an element. -/
def Body.toTree : Body → Element
  | .layout l => l.toTree
  | .component c => .component c

/-- A component defined by the project. -/
structure ComponentDefinition where
  name : String
  body : Body
  id : Option NodeId
  deriving Repr

/-- A layout defined by the project. Its body holds the slot for the child it is given. -/
structure LayoutDefinition where
  name : String
  layout : Layout
  id : Option NodeId
  deriving Repr

/-- A definition of either kind. -/
inductive Definition where
  | component (definition : ComponentDefinition)
  | layout (definition : LayoutDefinition)
  deriving Repr

namespace Definition

/-- The name that is defined. -/
def name : Definition → String
  | .component d => d.name
  | .layout d => d.name

/-- The id of the definition. -/
def id : Definition → Option NodeId
  | .component d => d.id
  | .layout d => d.id

/-- The element that the definition stands for. -/
def body : Definition → Element
  | .component d => d.body.toTree
  | .layout d => d.layout.toTree

/-- Whether it defines a layout. -/
def isLayout : Definition → Bool
  | .component _ => false
  | .layout _ => true

end Definition

/-- A project. -/
structure Project where
  name : String
  style : OrderedMap String
  mocks : OrderedMap String
  colors : OrderedMap String
  definitions : List Definition
  screens : List Screen
  id : Option NodeId
  deriving Repr

namespace Project

/-- The names of the components that the project defines. -/
def componentNames (project : Project) : List String :=
  (project.definitions.filter (!·.isLayout)).map Definition.name

/-- The names of the layouts that the project defines. -/
def layoutNames (project : Project) : List String :=
  (project.definitions.filter (·.isLayout)).map Definition.name

end Project

/-! ### Ids -/

/-- The component without its id. -/
def Component.clearId (c : Component) : Component :=
  { c with id := none }

/-- The layout without its id. -/
def LayoutNode.clearId (l : LayoutNode) : LayoutNode :=
  { l with id := none }

/-- The cell without its id. -/
def CellNode.clearId (k : CellNode) : CellNode :=
  { k with id := none }

/-- The element without its id and those inside it. -/
def clearTree : Element → Element :=
  Tree.map Component.clearId LayoutNode.clearId CellNode.clearId

/-- The layout without its id and those inside it. -/
def clearLayout (l : Layout) : Layout :=
  ⟨l.layout.clearId, l.children.map clearTree⟩

/-- The screen without ids. -/
def Screen.clearIds (s : Screen) : Screen :=
  { s with layout := clearLayout s.layout, id := none }

/-- The body without ids. -/
def Body.clearIds : Body → Body
  | .layout l => .layout (clearLayout l)
  | .component c => .component c.clearId

/-- The definition without ids. -/
def Definition.clearIds : Definition → Definition
  | .component d => .component ⟨d.name, d.body.clearIds, none⟩
  | .layout d => .layout ⟨d.name, clearLayout d.layout, none⟩

/-- The project without ids. -/
def Project.clearIds (project : Project) : Project :=
  { project with
    definitions := project.definitions.map Definition.clearIds
    screens := project.screens.map Screen.clearIds
    id := none }

/-! ### Walks -/

/-- Any part of a project. -/
inductive Node where
  | project (project : Project)
  | definition (definition : Definition)
  | screen (screen : Screen)
  | element (element : Element)

namespace Node

/-- The parts directly inside a part, in order. Definitions come before screens. -/
def children : Node → List Node
  | .project p => p.definitions.map .definition ++ p.screens.map .screen
  | .definition d => [.element d.body]
  | .screen s => [.element s.layout.toTree]
  | .element e => e.children.map .element

/-- The id of a part. -/
def id : Node → Option NodeId
  | .project p => p.id
  | .definition d => d.id
  | .screen s => s.id
  | .element (.component c) => c.id
  | .element (.layout l _) => l.id
  | .element (.cell k _) => k.id

end Node

/-- A definition and all parts inside it. -/
def Definition.walk (d : Definition) : List Node :=
  .definition d :: d.body.walk.map .element

/-- A screen and all parts inside it. -/
def Screen.walk (s : Screen) : List Node :=
  .screen s :: s.layout.toTree.walk.map .element

/-- A project and all parts inside it, each before the parts inside it. -/
def Project.walk (project : Project) : List Node :=
  .project project :: (project.definitions.flatMap Definition.walk ++
    project.screens.flatMap Screen.walk)

end Wireframe
