import Wireframe.Token
import Wireframe.Tree

/-!
# Blocks as they are written

The blocks of a project in written order, made of the tokens that open, fill and close them. The
marks between properties are left out: a colon stands in every property, and a comma between any
two parameters.

## Main definitions

* `WrittenProperty`, `ParamList` — properties, in running text and between parentheses.
* `Block` — a component, layout or cell with the blocks inside it.
* `ScreenBlock`, `DefinitionBlock`, `SettingsBlock` — the three kinds of project item.
* `ProjectBlock` — a whole project.
-/

namespace Wireframe

/-- A name, a colon and a value. -/
structure WrittenProperty where
  name : Lexeme
  value : Lexeme
  deriving DecidableEq, Repr

/-- Properties between parentheses, with a comma between any two of them. -/
structure ParamList where
  opening : Lexeme
  properties : List WrittenProperty
  closing : Lexeme
  deriving DecidableEq, Repr

/-- The head of a block together with the brace that closes the block. -/
structure Closed (α : Type) where
  head : α
  closing : Lexeme
  deriving DecidableEq, Repr

/-- A component: a keyword, a type and properties. -/
structure ComponentBlock where
  keyword : Lexeme
  kind : Lexeme
  properties : List WrittenProperty
  deriving DecidableEq, Repr

/-- What opens a layout. -/
structure LayoutHead where
  keyword : Lexeme
  kind : Lexeme
  params : Option ParamList
  opening : Lexeme
  deriving DecidableEq, Repr

/-- What opens a cell. -/
structure CellHead where
  keyword : Lexeme
  properties : List WrittenProperty
  opening : Lexeme
  deriving DecidableEq, Repr

/-- A component, layout or cell with the blocks inside it. -/
abbrev Block :=
  Tree ComponentBlock (Closed LayoutHead) (Closed CellHead)

/-- A layout with the blocks inside it. -/
abbrev LayoutBlock :=
  Rooted ComponentBlock (Closed LayoutHead) (Closed CellHead)

/-- What opens a screen. -/
structure ScreenHead where
  keyword : Lexeme
  name : Lexeme
  params : Option ParamList
  opening : Lexeme
  deriving DecidableEq, Repr

/-- A screen, which holds one layout. -/
structure ScreenBlock where
  head : ScreenHead
  layout : LayoutBlock
  closing : Lexeme

/-- What opens a definition of either kind. -/
structure DefinitionHead where
  define : Lexeme
  kind : Lexeme
  name : Lexeme
  opening : Lexeme
  deriving DecidableEq, Repr

/-- What a component definition holds. -/
inductive DefinitionBody where
  | layout (layout : LayoutBlock)
  | component (component : ComponentBlock)

/-- The definition of a component or of a layout. -/
inductive DefinitionBlock where
  | component (head : DefinitionHead) (body : DefinitionBody) (closing : Lexeme)
  | layout (head : DefinitionHead) (layout : LayoutBlock) (closing : Lexeme)

/-- The blocks of a project that hold nothing but properties. -/
inductive SettingsKind where
  | style
  | mocks
  | colors
  deriving DecidableEq, Repr

/-- What opens a block of settings. -/
structure SettingsHead where
  kind : SettingsKind
  keyword : Lexeme
  opening : Lexeme
  deriving DecidableEq, Repr

/-- A block of settings. -/
structure SettingsBlock where
  head : SettingsHead
  properties : List WrittenProperty
  closing : Lexeme
  deriving DecidableEq, Repr

/-- What a project holds. -/
inductive Item where
  | settings (block : SettingsBlock)
  | definition (block : DefinitionBlock)
  | screen (block : ScreenBlock)

/-- What opens a project. -/
structure ProjectHead where
  keyword : Lexeme
  name : Lexeme
  opening : Lexeme
  deriving DecidableEq, Repr

/-- A project with its items in written order. -/
structure ProjectBlock where
  head : ProjectHead
  items : List Item
  closing : Lexeme

namespace ProjectBlock

/-- The screens of a project, in order. -/
def screens (project : ProjectBlock) : List ScreenBlock :=
  project.items.filterMap fun
    | .screen block => some block
    | _ => none

/-- The definitions of a project, in order. -/
def definitions (project : ProjectBlock) : List DefinitionBlock :=
  project.items.filterMap fun
    | .definition block => some block
    | _ => none

/-- The settings blocks of one kind, in order. -/
def settings (project : ProjectBlock) (kind : SettingsKind) : List SettingsBlock :=
  project.items.filterMap fun
    | .settings block => if block.head.kind = kind then some block else none
    | _ => none

end ProjectBlock

end Wireframe
