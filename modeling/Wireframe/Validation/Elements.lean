import Wireframe.Finding
import Wireframe.Project

/-!
# Rules for components, layouts and cells

Every node of a screen or a definition is judged on its own: by its type, its properties and its
number of children, and by the names that the project defines. Elements of defined types are judged
by the definition instead of the registry, so their properties are free.

## Main definitions

* `Scope` — what the rules for a node depend on besides the node.
* `propertyProblems` — what is wrong with properties, by the specifications of those accepted.
* `Component.problems`, `LayoutNode.problems`, `CellNode.problems` — what is wrong with a node.
* `Scope.judge` — the findings of all nodes of an element, each before those inside it.
-/

namespace Wireframe

/-- What the rules for a node depend on besides the node. -/
structure Scope where
  /-- The components that the project defines. -/
  components : List String
  /-- The layouts that the project defines. -/
  layouts : List String
  /-- Whether the slot for children may be used. -/
  slotAllowed : Bool
  deriving DecidableEq, Repr

/-! ### Properties -/

/-- What is wrong with the value of an accepted property. -/
def PropertySpec.problems (spec : PropertySpec) (owner : Owner) (value : PropertyValue) :
    List Problem :=
  match spec.kind with
  | .oneOf choices =>
    if value.text?.any choices.contains then []
    else [.invalidChoice owner spec.name value choices]
  | .boolean =>
    if value.isBoolean then []
    else if reported : owner.booleanCode.isSome then
      [.invalidBoolean owner spec.name value reported]
    else []
  | .string | .number | .size _ => []

/-- What is wrong with one property. -/
def propertyProblem (owner : Owner) (specs : List PropertySpec) (name : String)
    (value : PropertyValue) : List Problem :=
  match specs.find? (·.name == name) with
  | none => [.unknownProperty owner name (specs.map (·.name))]
  | some spec => spec.problems owner value

/-- What is wrong with properties, in written order. -/
def propertyProblems (owner : Owner) (specs : List PropertySpec) (properties : Properties) :
    List Problem :=
  properties.entries.flatMap fun (name, value) => propertyProblem owner specs name value

/-! ### Components -/

/-- The properties that a component of this type lacks, in the order of the registry. -/
def TypeSpec.missing (spec : TypeSpec) (properties : Properties) : List String :=
  (spec.properties.filter fun p => p.mustBeSupplied && !properties.contains p.name).map (·.name)

/-- What is wrong with a component of a built-in type. -/
def TypeSpec.componentProblems (spec : TypeSpec) (properties : Properties) : List Problem :=
  let missing := spec.missing properties
  (if missing.isEmpty then [] else [.missingProperties spec.name missing]) ++
    propertyProblems (.component spec.name) spec.properties properties

/-- What is wrong with a component. -/
def Component.problems (scope : Scope) (c : Component) : List Problem :=
  -- A definition by the name of the slot does not make it a component like others.
  if c.kind = Registry.childrenSlot then
    if scope.slotAllowed then [] else [.straySlot]
  else if c.kind ∈ scope.components then []
  else
    match Registry.component? c.kind with
    | none => [.unknownComponent c.kind]
    | some spec => spec.componentProblems c.properties

/-! ### Layouts -/

/-- A width has to be a number greater than zero. -/
def PropertyValue.isWidth (value : PropertyValue) : Bool :=
  value.number?.any fun x => decide (0.0 < x)

/-- A grid has a whole number of columns from 1 to 12. -/
def PropertyValue.isColumnCount (value : PropertyValue) : Bool :=
  value.number?.any fun x => (List.range 12).any fun k => x == Float.ofNat (k + 1)

/-- What is wrong with a width. -/
def PropertySpec.widthProblems (spec : PropertySpec) (params : Properties) : List Problem :=
  match spec.kind, params.get? spec.name with
  | .size fallback, some value =>
    if value.isWidth then [] else [.invalidSize spec.name value fallback]
  | _, _ => []

/-- What is wrong with the columns of a grid. -/
def gridProblems (params : Properties) : List Problem :=
  match params.get? "columns" with
  | none => [.missingColumns]
  | some value => if value.isColumnCount then [] else [.columnsOutOfRange value]

/-- What is wrong with the sides of a split. -/
def splitProblems (params : Properties) (count : Nat) : List Problem :=
  let sidebar := if params.contains "sidebar" then [Problem.splitSidebar] else []
  let sides :=
    match params.contains "left", params.contains "right" with
    | true, true => [Problem.splitBothSides]
    | false, false => [Problem.splitNoSide]
    | _, _ => []
  let children := if count = 2 then [] else [Problem.splitChildren count]
  sidebar ++ sides ++ children

/-- What is wrong with a layout of a built-in type that has `count` children. -/
def TypeSpec.layoutProblems (spec : TypeSpec) (params : Properties) (count : Nat) :
    List Problem :=
  let values := propertyProblems (.layout spec.name) spec.properties params
  let widths := spec.properties.flatMap (·.widthProblems params)
  let empty := if count = 0 then [Problem.emptyLayout spec.name] else []
  let special :=
    match spec.name with
    | "grid" => gridProblems params
    | "split" => splitProblems params count
    | _ => []
  values ++ widths ++ empty ++ special

/-- What is wrong with a layout that has `count` children. -/
def LayoutNode.problems (scope : Scope) (l : LayoutNode) (count : Nat) : List Problem :=
  -- A definition hides the built-in type of its name, and with it the rules for that type.
  if l.kind ∈ scope.layouts then
    if count = 1 then [] else [.definedLayoutChildren l.kind count]
  else
    match Registry.layout? l.kind with
    | none => [.unknownLayout l.kind]
    | some spec => spec.layoutProblems l.params count

/-! ### Cells and elements -/

/-- What is wrong with a cell. -/
def CellNode.problems (k : CellNode) : List Problem :=
  propertyProblems .cell Registry.cellProperties k.properties

/-- The findings of an element: those of each node stand before those inside it. -/
def Scope.judge (scope : Scope) : Tree.Gather Component LayoutNode CellNode Finding where
  component c := (c.problems scope).map (⟨·, c.id⟩)
  layout l children inside := (l.problems scope children.length).map (⟨·, l.id⟩) ++ inside
  cell k _ inside := k.problems.map (⟨·, k.id⟩) ++ inside

end Wireframe
