import Wireframe.Diagnostic
import Wireframe.Registry
import Wireframe.Text.Uppercase
import Wireframe.Value

/-!
# Problems of a project

What can be wrong with a project that is written correctly. A problem is told apart from where it
is found: each one knows its severity, code and wording, and which part of its node it concerns.

## Main definitions

* `Owner` — what a property belongs to.
* `Problem` — one thing that is wrong.
* `Problem.severity`, `Problem.code`, `Problem.message`, `Problem.suggestion` — how it is reported.
* `Problem.place` — the part of the node that it concerns.
-/

namespace Wireframe

/-- What a property belongs to. -/
inductive Owner where
  | component (kind : String)
  | layout (kind : String)
  | cell
  deriving DecidableEq, Repr

namespace Owner

/-- The owner in words. -/
def describe : Owner → String
  | .component s => s!"component `{s}`"
  | .layout s => s!"layout `{s}`"
  | .cell => "cell"

/-- What the properties of an owner are called. -/
def noun : Owner → String
  | .layout _ => "parameter"
  | .component _ | .cell => "property"

/-- The code for a property that the owner does not accept. -/
def unknownCode : Owner → Code
  | .component _ => .componentUnknownProperty
  | .layout _ => .layoutUnknownParameter
  | .cell => .cellUnknownProperty

/-- The code for a value outside a closed set. -/
def choiceCode : Owner → Code
  | .component _ => .componentInvalidChoice
  | .layout _ => .layoutInvalidChoice
  | .cell => .cellInvalidChoice

/-- The code for a value that is no truth value, where the owner reports such values. A cell does
not. -/
def booleanCode : Owner → Option Code
  | .component _ => some .componentInvalidBoolean
  | .layout _ => some .layoutInvalidBoolean
  | .cell => none

end Owner

/-- The part of a node that a problem concerns. -/
inductive Place where
  | node
  /-- The name of the node, or the node itself if it has none. -/
  | name
  | propertyName (property : String)
  | propertyValue (property : String)
  deriving DecidableEq, Repr

/-- One thing that is wrong with a project. -/
inductive Problem where
  | duplicateDefinition (name : String)
  | uncapitalizedComponent (name : String)
  | invalidLayoutName (name : String)
  | missingSlot (definition : String)
  | multipleSlots (definition : String) (count : Nat)
  | unknownProperty (owner : Owner) (property : String) (allowed : List String)
  | invalidChoice (owner : Owner) (property : String) (value : PropertyValue)
      (choices : List String)
  /-- Only an owner with a code for it has this problem. -/
  | invalidBoolean (owner : Owner) (property : String) (value : PropertyValue)
      (reported : owner.booleanCode.isSome)
  | straySlot
  | unknownComponent (kind : String)
  | missingProperties (kind : String) (properties : List String)
  | unknownLayout (kind : String)
  | definedLayoutChildren (kind : String) (count : Nat)
  | invalidSize (property : String) (value : PropertyValue) (fallback : Nat)
  | emptyLayout (kind : String)
  | missingColumns
  | columnsOutOfRange (value : PropertyValue)
  | splitSidebar
  | splitBothSides
  | splitNoSide
  | splitChildren (count : Nat)
  /-- Every chain runs from a definition over those that it uses back to itself. -/
  | definitionCycle (chains : List (List String))
  deriving Repr

namespace Problem

/-- Errors are what leaves a project without a meaning; the rest are warnings. -/
def severity : Problem → Severity
  | .duplicateDefinition _ | .invalidLayoutName _ | .missingSlot _ | .multipleSlots _ _
  | .straySlot | .definedLayoutChildren _ _ | .splitSidebar | .splitBothSides | .splitNoSide
  | .splitChildren _ | .definitionCycle _ => .error
  | .uncapitalizedComponent _ | .unknownProperty _ _ _ | .invalidChoice _ _ _ _
  | .invalidBoolean _ _ _ _ | .unknownComponent _ | .missingProperties _ _ | .unknownLayout _
  | .invalidSize _ _ _ | .emptyLayout _ | .missingColumns | .columnsOutOfRange _ => .warning

/-- The code of a problem. -/
def code : Problem → Code
  | .duplicateDefinition _ => .duplicateDefinition
  | .uncapitalizedComponent _ => .uncapitalizedComponentName
  | .invalidLayoutName _ => .invalidLayoutName
  | .missingSlot _ => .missingSlot
  | .multipleSlots _ _ => .multipleSlots
  | .unknownProperty owner _ _ => owner.unknownCode
  | .invalidChoice owner _ _ _ => owner.choiceCode
  | .invalidBoolean owner _ _ reported => owner.booleanCode.get reported
  | .straySlot => .slotOutsideLayoutDefinition
  | .unknownComponent _ => .componentUnknownType
  | .missingProperties _ _ => .componentMissingProperty
  | .unknownLayout _ => .layoutUnknownType
  | .definedLayoutChildren _ _ => .definedLayoutChildren
  | .invalidSize _ _ _ => .layoutInvalidSize
  | .emptyLayout _ => .layoutEmpty
  | .missingColumns => .gridMissingColumns
  | .columnsOutOfRange _ => .gridColumnsOutOfRange
  | .splitSidebar => .splitSidebar
  | .splitBothSides => .splitSideConflict
  | .splitNoSide => .splitMissingSide
  | .splitChildren _ => .splitChildren
  | .definitionCycle _ => .definitionCycle

/-- A chain of definitions, from one to the next. -/
def renderChain (names : List String) : String :=
  " → ".intercalate names

/-- What is wrong. -/
def message : Problem → String
  | .duplicateDefinition name => s!"`{name}` is already defined"
  | .uncapitalizedComponent name =>
    s!"component definition `{name}` should start with a capital letter"
  | .invalidLayoutName name =>
    s!"layout definition `{name}` must start with a lowercase letter" ++
      " and contain only letters, digits and `_`"
  | .missingSlot name => s!"layout definition `{name}` has no `{Registry.childrenSlot}` slot"
  | .multipleSlots name count =>
    s!"layout definition `{name}` has {count} `{Registry.childrenSlot}` slots"
  | .unknownProperty owner name _ => s!"unknown {owner.noun} `{name}` on {owner.describe}"
  | .invalidChoice owner name value _ =>
    s!"invalid value `{value.render}` for `{name}` on {owner.describe}"
  | .invalidBoolean owner name value _ =>
    s!"`{name}` on {owner.describe} expects a boolean, found `{value.render}`"
  | .straySlot => s!"`{Registry.childrenSlot}` can only be used inside a layout definition"
  | .unknownComponent kind => s!"unknown component type `{kind}`"
  | .missingProperties kind names =>
    let noun := if names.length = 1 then "property" else "properties"
    let list := ", ".intercalate names
    s!"component `{kind}` is missing required {noun}: {list}"
  | .unknownLayout kind => s!"unknown layout type `{kind}`"
  | .definedLayoutChildren kind count => s!"layout `{kind}` takes exactly one child, found {count}"
  | .invalidSize name value fallback =>
    s!"`{name}` must be a positive number, found `{value.render}`; using {fallback}"
  | .emptyLayout kind => s!"layout `{kind}` has no children"
  | .missingColumns => "grid layout is missing the `columns` parameter"
  | .columnsOutOfRange value =>
    s!"grid `columns` must be a whole number from 1 to 12, found `{value.render}`"
  | .splitSidebar => "split parameter `sidebar` is no longer supported"
  | .splitBothSides => "split layout declares both `left` and `right`"
  | .splitNoSide => "split layout needs a fixed `left` or `right` width"
  | .splitChildren count => s!"split layout needs exactly 2 children, found {count}"
  | .definitionCycle chains =>
    let list := "; ".intercalate (chains.map renderChain)
    s!"circular definitions: {list}"

/-- What to do about it. -/
def suggestion : Problem → String
  | .duplicateDefinition _ => "rename one of the definitions"
  | .uncapitalizedComponent name => s!"rename it to `{capitalize name}`"
  | .invalidLayoutName _ => "use a name such as `appShell` or `two_column`"
  | .missingSlot _ =>
    s!"add `component {Registry.childrenSlot}` where the invocation's child should go"
  | .multipleSlots _ _ => s!"keep a single `component {Registry.childrenSlot}`"
  | .unknownProperty _ _ allowed =>
    let list := if allowed.isEmpty then "none" else ", ".intercalate allowed
    s!"allowed: {list}"
  | .invalidChoice _ _ _ choices =>
    let list := ", ".intercalate choices
    s!"expected one of: {list}"
  | .invalidBoolean _ _ _ _ => "use `true` or `false`"
  | .straySlot => "move it into a `define Layout` body, or remove it"
  | .unknownComponent kind =>
    s!"define it: define Component \"{kind}\" \x7b component Text text: \"{kind}\" \x7d"
  | .missingProperties _ names =>
    let list := " ".intercalate (names.map fun name => s!"{name}: \"...\"")
    s!"add {list}"
  | .unknownLayout kind =>
    s!"define it: define Layout \"{kind}\" \x7b layout stack \x7b component Children \x7d \x7d"
  | .definedLayoutChildren _ _ => "wrap the children in a single `layout stack`"
  | .invalidSize name _ fallback => s!"set `{name}` to a width in pixels, e.g. {fallback}"
  | .emptyLayout _ => "add a component or remove the layout"
  | .missingColumns => "add a column count, e.g. `layout grid(columns: 12)`"
  | .columnsOutOfRange _ => "use a column count from 1 to 12"
  | .splitSidebar => "use `left: <width>` or `right: <width>` instead"
  | .splitBothSides => "keep only one of `left` or `right`"
  | .splitNoSide => "add `(left: 250)` or `(right: 250)` after `split`"
  | .splitChildren _ => "wrap extra children in a `layout stack`"
  | .definitionCycle _ => "break the cycle by removing one of the references"

/-- The part of the node that a problem concerns. -/
def place : Problem → Place
  | .duplicateDefinition _ | .uncapitalizedComponent _ | .invalidLayoutName _
  | .unknownComponent _ | .unknownLayout _ => .name
  | .unknownProperty _ property _ => .propertyName property
  | .invalidChoice _ property _ _ | .invalidBoolean _ property _ _ | .invalidSize property _ _ =>
    .propertyValue property
  | .columnsOutOfRange _ => .propertyValue "columns"
  | .splitSidebar => .propertyName "sidebar"
  | .missingSlot _ | .multipleSlots _ _ | .straySlot | .missingProperties _ _
  | .definedLayoutChildren _ _ | .emptyLayout _ | .missingColumns | .splitBothSides
  | .splitNoSide | .splitChildren _ | .definitionCycle _ => .node

end Problem

end Wireframe
