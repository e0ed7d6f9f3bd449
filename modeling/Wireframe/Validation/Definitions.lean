import Wireframe.Finding
import Wireframe.Project

/-!
# Rules for definitions

## Main definitions

* `isLayoutName` — the names that a layout definition may have.
* `slotCount` — how often an element holds the slot for children.
* `definitionFindings` — what is wrong with the definitions of a project.
-/

namespace Wireframe

/-- A layout name starts with a small letter and goes on with letters, digits and underscores, all
of them ASCII. -/
def isLayoutName (name : String) : Bool :=
  match name.toList with
  | [] => false
  | first :: others => first.isLower && others.all fun c => c.isAlphanum || c == '_'

/-- Whether a name starts with an ASCII capital. -/
def isCapitalized (name : String) : Bool :=
  name.toList.head?.any Char.isUpper

/-- Whether a node is the slot for children. -/
def isSlot : Element → Bool
  | .component c => c.kind == Registry.childrenSlot
  | _ => false

/-- How often an element holds the slot for children, at any depth. -/
def slotCount (element : Element) : Nat :=
  element.walk.countP isSlot

/-- A layout definition says once where the child goes. -/
def slotProblems (name : String) : Nat → List Problem
  | 0 => [.missingSlot name]
  | 1 => []
  | count => [.multipleSlots name count]

/-- What is wrong with a definition, apart from what its body is made of. -/
def Definition.problems (d : Definition) : List Problem :=
  match d with
  | .component _ => if isCapitalized d.name then [] else [.uncapitalizedComponent d.name]
  | .layout _ =>
    (if isLayoutName d.name then [] else [.invalidLayoutName d.name]) ++
      slotProblems d.name (slotCount d.body)

/-- What is wrong with definitions, in written order, if some names are taken already. The two
kinds of definition share their names. -/
def definitionFindings (taken : List String) : List Definition → List Finding
  | [] => []
  | d :: others =>
    let duplicate := if d.name ∈ taken then [Problem.duplicateDefinition d.name] else []
    (duplicate ++ d.problems).map (⟨·, d.id⟩) ++ definitionFindings (d.name :: taken) others

end Wireframe
